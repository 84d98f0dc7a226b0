import LinuxSystemProgramming.Lib.Pipe
import LinuxSystemProgramming.Lib.Transition

/-!
The programs 11_2 and 11_3: the parent writes its texts into a pipe, closes it and waits for the
child, which reads and prints until the end of file (11_2) or once (11_3). Every call may fail but
the `wait`; a `close` of the parent that fails may leave the end open. `sleep` is any delay.
-/

namespace LinuxSystemProgramming.Pipes

open CMemory Transition

def sizeOfBufRead : ℕ := 64

def sizeOfBufWrite : ℕ := 64

inductive Proc
  | parent
  | child
  deriving DecidableEq

instance : Fintype Proc := ⟨{.parent, .child}, fun p => by cases p <;> simp⟩

/-- What 11_2 and 11_3 differ in. -/
structure Variant where
  messages : List Text
  bytesToReadAtOnce : ℕ
  ignoresSigpipe : Bool
  exitsOnWriteError : Bool
  stopsAfterRead : Bool
  capacity : ℕ
  fits : ∀ m ∈ messages, m.bytes ≠ [] ∧ m.bytes.length < sizeOfBufWrite
  reads : 0 < bytesToReadAtOnce ∧ bytesToReadAtOnce < sizeOfBufRead
  room : sizeOfBufWrite ≤ capacity

inductive ParentPc
  | pipe
  | fork
  | closeReading
  | write (m : Text) (rest : List Text)
  | closeWriting
  | wait
  | exited (status : ℕ)
  | killed

inductive ChildPc
  | notCreated
  | closeWriting
  | read
  | closeReading
  | exited (status : ℕ)
  | reaped (status : ℕ)
  deriving DecidableEq

/-- `accepted` has the texts that `write` has taken, `printed` the lines "Data read". -/
structure State where
  parent : ParentPc
  child : ChildPc
  pipe : Pipe Proc
  accepted : List Text
  printed : List (List Byte)

inductive Action
  | parent
  | parentFails (keeps : Bool)
  | child (k : ℕ)
  | childFails

namespace State

def initial : State where
  parent := .pipe
  child := .notCreated
  pipe := ⟨[], fun _ => false, fun _ => false⟩
  accepted := []
  printed := []

def parentExits (s : State) (status : ℕ) : State :=
  { s with parent := .exited status, pipe := s.pipe.exit .parent }

def childExits (s : State) (status : ℕ) : State :=
  { s with child := .exited status, pipe := s.pipe.exit .child }

end State

def afterWrites : List Text → ParentPc
  | [] => .closeWriting
  | m :: rest => .write m rest

variable (V : Variant) (s : State)

def writeError (rest : List Text) : State :=
  if V.exitsOnWriteError then s.parentExits 1 else { s with parent := afterWrites rest }

def parent : Option State :=
  match s.parent with
  | .pipe => some { s with parent := .fork, pipe := Pipe.create .parent }
  | .fork => some { s with
      parent := .closeReading
      child := .closeWriting
      pipe := s.pipe.fork .parent .child }
  | .closeReading => some { s with
      parent := afterWrites V.messages
      pipe := s.pipe.closeRead .parent }
  | .write m rest =>
    match s.pipe.write V.capacity m.bytes with
    | .written q => some { s with
        parent := afterWrites rest
        pipe := q
        accepted := s.accepted ++ [m] }
    | .waits => none
    | .broken =>
      -- SIGPIPE ends the parent where it is not ignored
      if V.ignoresSigpipe then some (writeError V s rest)
      else some { s with parent := .killed, pipe := s.pipe.exit .parent }
  | .closeWriting => some { s with parent := .wait, pipe := s.pipe.closeWrite .parent }
  | .wait =>
    match s.child with
    | .exited status => some { s.parentExits 0 with child := .reaped status }
    | _ => none
  | .exited _ | .killed => none

def parentFails (keeps : Bool) : Option State :=
  match s.parent with
  | .pipe | .fork => some (s.parentExits 1)
  | .closeReading => some { s with
      parent := afterWrites V.messages
      pipe := if keeps then s.pipe else s.pipe.closeRead .parent }
  | .write _ rest => some (writeError V s rest)
  | .closeWriting => some { s with
      parent := .wait
      pipe := if keeps then s.pipe else s.pipe.closeWrite .parent }
  | .wait | .exited _ | .killed => none

def child (k : ℕ) : Option State :=
  match s.child with
  | .closeWriting => some { s with child := .read, pipe := s.pipe.closeWrite .child }
  | .read =>
    (s.pipe.read V.bytesToReadAtOnce k).map fun (l, q) =>
      if l = [] then { s with child := .closeReading, pipe := q }
      else { s with
        child := if V.stopsAfterRead then .closeReading else .read
        pipe := q
        printed := s.printed ++ [cString (l ++ [0])] }
  | .closeReading => some (s.childExits 0)
  | .notCreated | .exited _ | .reaped _ => none

def childFails : Option State :=
  match s.child with
  | .closeWriting | .read | .closeReading => some (s.childExits 1)
  | .notCreated | .exited _ | .reaped _ => none

def next : Action → Option State
  | .parent => parent V s
  | .parentFails keeps => parentFails V s keeps
  | .child k => child V s k
  | .childFails => childFails s

def system : System State Action where
  init s := s = State.initial
  next := next V

/-- 11_2: one text, "123456789ABCDEF", read by at most 8 bytes. -/
def parentAndChild (capacity : ℕ) (room : sizeOfBufWrite ≤ capacity) : Variant where
  messages := [⟨[49, 50, 51, 52, 53, 54, 55, 56, 57, 65, 66, 67, 68, 69, 70], by simp⟩]
  bytesToReadAtOnce := 8
  ignoresSigpipe := false
  exitsOnWriteError := true
  stopsAfterRead := false
  capacity := capacity
  fits := by simp [sizeOfBufWrite]
  reads := by decide
  room := room

/-- 11_3: "1234" and "5678", and a child that closes its end after the first read. -/
def demonstrationOfSigpipe (capacity : ℕ) (room : sizeOfBufWrite ≤ capacity) : Variant where
  messages := [⟨[49, 50, 51, 52], by simp⟩, ⟨[53, 54, 55, 56], by simp⟩]
  bytesToReadAtOnce := 4
  ignoresSigpipe := true
  exitsOnWriteError := false
  stopsAfterRead := true
  capacity := capacity
  fits := by simp [sizeOfBufWrite]
  reads := by decide
  room := room

def Action.succeeds : Action → Prop
  | .parent | .child _ => True
  | .parentFails _ | .childFails => False

def ParentPc.isWrite : ParentPc → Bool
  | .write _ _ => true
  | _ => false

inductive Step : Action → State → Prop
  | pipe (hp : s.parent = .pipe) :
      Step .parent { s with parent := .fork, pipe := Pipe.create .parent }
  | fork (hp : s.parent = .fork) :
      Step .parent { s with
        parent := .closeReading
        child := .closeWriting
        pipe := s.pipe.fork .parent .child }
  | closeReading {a q} (hp : s.parent = .closeReading)
      (hq : q = s.pipe.closeRead .parent ∨ a = .parentFails true ∧ q = s.pipe) :
      Step a { s with parent := afterWrites V.messages, pipe := q }
  | wrote {m rest} (hp : s.parent = .write m rest) (hr : s.pipe.HasReader) :
      Step .parent { s with
        parent := afterWrites rest
        pipe := { s.pipe with data := s.pipe.data ++ m.bytes }
        accepted := s.accepted ++ [m] }
  | skipped {a m rest} (hp : s.parent = .write m rest) (he : V.exitsOnWriteError = false)
      (hf : a.succeeds → ¬ s.pipe.HasReader) :
      Step a { s with parent := afterWrites rest }
  | killed {m rest} (hp : s.parent = .write m rest) (hr : ¬ s.pipe.HasReader)
      (hs : V.ignoresSigpipe = false) :
      Step .parent { s with parent := .killed, pipe := s.pipe.exit .parent }
  | exits {a} (hp : s.parent = .pipe ∨ s.parent = .fork ∨
        ∃ m rest, s.parent = .write m rest ∧ V.exitsOnWriteError = true)
      (hf : a.succeeds → s.parent.isWrite = true ∧ ¬ s.pipe.HasReader) :
      Step a (s.parentExits 1)
  | closeWriting {a q} (hp : s.parent = .closeWriting)
      (hq : q = s.pipe.closeWrite .parent ∨ a = .parentFails true ∧ q = s.pipe) :
      Step a { s with parent := .wait, pipe := q }
  | wait {status} (hp : s.parent = .wait) (hc : s.child = .exited status) :
      Step .parent { s.parentExits 0 with child := .reaped status }
  | childCloses {k} (hc : s.child = .closeWriting) :
      Step (.child k) { s with child := .read, pipe := s.pipe.closeWrite .child }
  | eof {k} (hc : s.child = .read) (hd : s.pipe.data = []) (hw : ¬ s.pipe.HasWriter) :
      Step (.child k) { s with child := .closeReading }
  | got {k l q} (hc : s.child = .read) (hl : l ≠ []) (hn : l.length ≤ V.bytesToReadAtOnce)
      (hq : s.pipe.data = l ++ q.data ∧ q.reads = s.pipe.reads ∧ q.writes = s.pipe.writes) :
      Step (.child k) { s with
        child := if V.stopsAfterRead then .closeReading else .read
        pipe := q
        printed := s.printed ++ [cString (l ++ [0])] }
  | childEnds {k} (hc : s.child = .closeReading) : Step (.child k) (s.childExits 0)
  | childFails (hc : s.child = .closeWriting ∨ s.child = .read ∨ s.child = .closeReading) :
      Step .childFails (s.childExits 1)

variable {V : Variant} {s s' : State} {a : Action}

theorem step_of_writeError {m : Text} {rest : List Text} (hp : s.parent = .write m rest)
    (hf : a.succeeds → ¬ s.pipe.HasReader) : Step V s a (writeError V s rest) := by
  unfold writeError
  split
  next he => exact .exits (.inr (.inr ⟨m, rest, hp, he⟩)) (fun ha => ⟨by rw [hp]; rfl, hf ha⟩)
  next he => exact .skipped hp (Bool.eq_false_iff.mpr he) hf

theorem step_of_parent (h : parent V s = some s') : Step V s .parent s' := by
  unfold parent at h
  split at h
  next hp => cases h; exact .pipe hp
  next hp => cases h; exact .fork hp
  next hp => cases h; exact .closeReading hp (.inl rfl)
  next m rest hp =>
    split at h
    next q hq =>
      cases h
      obtain ⟨hr, rfl⟩ := Pipe.write_written hq
      exact .wrote hp hr
    next => cases h
    next hq =>
      split at h
      next => cases h; exact step_of_writeError hp (fun _ => Pipe.write_broken.mp hq)
      next hs =>
        cases h
        exact .killed hp (Pipe.write_broken.mp hq) (Bool.eq_false_iff.mpr hs)
  next hp => cases h; exact .closeWriting hp (.inl rfl)
  next hp =>
    split at h
    next hc => cases h; exact .wait hp hc
    next => cases h
  next => cases h
  next => cases h

theorem step_of_parentFails {keeps : Bool} (h : parentFails V s keeps = some s') :
    Step V s (.parentFails keeps) s' := by
  unfold parentFails at h
  split at h
  next hp => cases h; exact .exits (.inl hp) False.elim
  next hp => cases h; exact .exits (.inr (.inl hp)) False.elim
  next hp =>
    cases h
    cases keeps with
    | true => exact .closeReading hp (.inr ⟨rfl, rfl⟩)
    | false => exact .closeReading hp (.inl rfl)
  next hp => cases h; exact step_of_writeError hp False.elim
  next hp =>
    cases h
    cases keeps with
    | true => exact .closeWriting hp (.inr ⟨rfl, rfl⟩)
    | false => exact .closeWriting hp (.inl rfl)
  next => cases h
  next => cases h
  next => cases h

theorem step_of_child {k : ℕ} (h : child V s k = some s') : Step V s (.child k) s' := by
  unfold child at h
  split at h
  next hc => cases h; exact .childCloses hc
  next hc =>
    obtain ⟨⟨l, q⟩, hread, rfl⟩ := Option.map_eq_some_iff.mp h
    rcases Pipe.read_cases hread with ⟨rfl, rfl, hd, hw⟩ | ⟨hl, hn, hq⟩
    · exact .eof hc hd hw
    · simp only [hl, if_false]
      exact .got hc hl hn hq
  next hc => cases h; exact .childEnds hc
  next => cases h
  next => cases h
  next => cases h

theorem step_of_childFails (h : childFails s = some s') : Step V s .childFails s' := by
  unfold childFails at h
  split at h
  next hc => cases h; exact .childFails (.inl hc)
  next hc => cases h; exact .childFails (.inr (.inl hc))
  next hc => cases h; exact .childFails (.inr (.inr hc))
  next => cases h
  next => cases h
  next => cases h

theorem step_of_next (h : next V s a = some s') : Step V s a s' := by
  cases a with
  | parent => exact step_of_parent h
  | parentFails keeps => exact step_of_parentFails h
  | child k => exact step_of_child h
  | childFails => exact step_of_childFails h

end LinuxSystemProgramming.Pipes
