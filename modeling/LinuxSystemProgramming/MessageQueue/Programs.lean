import LinuxSystemProgramming.Lib.CMemory
import LinuxSystemProgramming.Lib.NamedObjects
import LinuxSystemProgramming.Lib.Transition

/-!
The programs of 11_6 on the queue `/message_queue`: any number of runs of the sender, started at
any time, and the receiver, which runs again and again. All messages have the same priority, so a
queue is read in the order of sending. `fails` is a call that gives an error, an interrupted one
included; the sender's `mq_open` gives a new queue the attributes of the action.
-/

namespace LinuxSystemProgramming.MessageQueue

open CMemory NamedObjects Transition

structure Message where
  run : ℕ
  seq : ℕ
  text : List Byte
  deriving DecidableEq

structure Attr where
  maxmsg : ℕ
  msgsize : ℕ
  deriving DecidableEq

structure Queue where
  attr : Attr
  messages : List Message
  deriving DecidableEq

def optionMaxmsg : ℕ := 5

def optionMsgsize : ℕ := 256

inductive SenderPc
  | open
  | getattr
  | top
  | fgets
  | send
  | print
  | close
  | exited
  | fault
  deriving DecidableEq

inductive SenderAction
  | signal
  | run
  | fails
  | mqOpen (attr : Attr)
  | fgets (bufWrite : List Byte)
  deriving DecidableEq

-- `lines` numbers the lines that have been offered to `mq_send`; the program does not count them.
structure Sender where
  pc : SenderPc
  stopFlag : Bool
  mqd : Option ℕ
  msgsize : ℕ
  stdin : List Byte
  text : List Byte
  lines : ℕ
  deriving DecidableEq

inductive ReceiverPc
  | off
  | unlink
  | open
  | getattr
  | malloc
  | top
  | receive
  | cleanupClose
  | cleanupUnlink
  deriving DecidableEq

inductive ReceiverAction
  | signal
  | run
  | fails
  | interrupted
  deriving DecidableEq

structure Receiver where
  pc : ReceiverPc
  stopFlag : Bool
  mqd : Option ℕ
  msgsize : ℕ
  deriving DecidableEq

/-- `sent`, `acked` and `received` record the messages that `mq_send` has taken, those reported as
sent successfully and those that `mq_receive` has given to a run of the receiver. -/
structure Exchange where
  kernel : Store Queue
  senders : ℕ → Sender
  receiver : Receiver
  sent : List Message
  acked : List Message
  received : List Message

def Sender.initial (stdin : List Byte) : Sender := ⟨.open, false, none, 0, stdin, [], 0⟩

def Sender.goto (s : Sender) (pc : SenderPc) : Sender := { s with pc := pc }

def Sender.takeLine (s : Sender) (bufWrite : List Byte) : Sender :=
  match CMemory.fgets bufWrite s.msgsize s.stdin with
  | none => s.goto .close
  | some (buf, rest) =>
    match store buf (strcspn buf newline) [0] with
    | none => s.goto .fault
    | some buf =>
      if strlen buf ≥ s.msgsize then { s with stdin := rest, pc := .top }
      else { s with stdin := rest, text := cString buf, pc := .send }

def Receiver.goto (r : Receiver) (pc : ReceiverPc) : Receiver := { r with pc := pc }

namespace Exchange

def start (stdin : ℕ → List Byte) : Exchange where
  kernel := Store.empty ⟨⟨0, 0⟩, []⟩
  senders i := Sender.initial (stdin i)
  receiver := ⟨.off, false, none, 0⟩
  sent := []
  acked := []
  received := []

def setSender (e : Exchange) (i : ℕ) (s : Sender) : Exchange :=
  { e with senders := Function.update e.senders i s }

def message (e : Exchange) (i : ℕ) : Message := ⟨i, (e.senders i).lines, (e.senders i).text⟩

def waiting (e : Exchange) : List Message :=
  match e.kernel.named with
  | some q => (e.kernel.object q).messages
  | none => []

def mqSend (e : Exchange) (i q : ℕ) : Option Exchange :=
  let queue := e.kernel.object q
  if queue.messages.length < queue.attr.maxmsg ∧ (e.senders i).text.length ≤ queue.attr.msgsize then
    some ({ e with
      kernel := e.kernel.modify q (fun b => { b with messages := b.messages ++ [e.message i] })
      sent := e.sent ++ [e.message i] }.setSender i ((e.senders i).goto .print))
  else none

def sender (e : Exchange) (i : ℕ) (a : SenderAction) : Option Exchange :=
  let s := e.senders i
  match s.pc, a with
  | _, .signal => some (e.setSender i { s with stopFlag := true })
  | .open, .mqOpen attr =>
    if 0 < attr.maxmsg ∧ 0 < attr.msgsize then
      let opened := e.kernel.openCreate ⟨attr, []⟩
      some ({ e with kernel := opened.1 }.setSender i { s with mqd := some opened.2, pc := .getattr })
    else none
  | .open, .fails => some (e.setSender i (s.goto .exited))
  | .getattr, .run =>
    s.mqd.map (fun q =>
      e.setSender i { s with msgsize := (e.kernel.object q).attr.msgsize, pc := .top })
  | .getattr, .fails => some (e.setSender i (s.goto .close))
  | .top, .run => some (e.setSender i (s.goto (if s.stopFlag then .close else .fgets)))
  | .fgets, .fgets bufWrite =>
    if bufWrite.length = s.msgsize then some (e.setSender i (s.takeLine bufWrite)) else none
  | .fgets, .fails => some (e.setSender i (s.goto .close))
  | .send, .run => s.mqd.bind (e.mqSend i)
  | .send, .fails => some (e.setSender i (s.goto .close))
  | .print, .run =>
    some ({ e with acked := e.acked ++ [e.message i] }.setSender i
      { s with lines := s.lines + 1, pc := .top })
  | .close, .run => some (e.setSender i { s with mqd := none, pc := .exited })
  | _, _ => none

def setReceiver (e : Exchange) (r : Receiver) : Exchange := { e with receiver := r }

def mqReceive (e : Exchange) (q : ℕ) : Option Exchange :=
  match (e.kernel.object q).messages with
  | [] => none
  | m :: rest =>
    if (e.kernel.object q).attr.msgsize ≤ e.receiver.msgsize then
      some ({ e with
        kernel := e.kernel.modify q (fun b => { b with messages := rest })
        received := e.received ++ [m] }.setReceiver (e.receiver.goto .top))
    else none

def receiverMain (e : Exchange) (a : ReceiverAction) : Option Exchange :=
  let r := e.receiver
  match r.pc, a with
  | .off, .run => some (e.setReceiver ⟨.unlink, false, none, 0⟩)
  | .off, _ => none
  | _, .signal => some (e.setReceiver { r with stopFlag := true })
  | .unlink, .run => some ({ e with kernel := e.kernel.unlink }.setReceiver (r.goto .open))
  | .unlink, .fails => some (e.setReceiver (r.goto .open))
  | .open, .run =>
    let opened := e.kernel.openCreate ⟨⟨optionMaxmsg, optionMsgsize⟩, []⟩
    some ({ e with kernel := opened.1 }.setReceiver { r with mqd := some opened.2, pc := .getattr })
  | .open, .fails => some (e.setReceiver (r.goto .off))
  | .getattr, .run =>
    r.mqd.map (fun q =>
      e.setReceiver { r with msgsize := (e.kernel.object q).attr.msgsize, pc := .malloc })
  | .getattr, .fails => some (e.setReceiver (r.goto .cleanupClose))
  | .malloc, .run => some (e.setReceiver (r.goto .top))
  | .malloc, .fails => some (e.setReceiver (r.goto .cleanupClose))
  | .top, .run => some (e.setReceiver (r.goto (if r.stopFlag then .cleanupClose else .receive)))
  | .receive, .run => r.mqd.bind e.mqReceive
  | .receive, .interrupted =>
    some (e.setReceiver (r.goto (if r.stopFlag then .cleanupClose else .top)))
  | .receive, .fails => some (e.setReceiver (r.goto .cleanupClose))
  | .cleanupClose, .run => some (e.setReceiver { r with mqd := none, pc := .cleanupUnlink })
  | .cleanupUnlink, .run => some ({ e with kernel := e.kernel.unlink }.setReceiver (r.goto .off))
  | .cleanupUnlink, .fails => some (e.setReceiver (r.goto .off))
  | _, _ => none

end Exchange

inductive Action
  | sender (i : ℕ) (a : SenderAction)
  | receiver (a : ReceiverAction)
  deriving DecidableEq

def Exchange.next (e : Exchange) : Action → Option Exchange
  | .sender i a => e.sender i a
  | .receiver a => e.receiverMain a

def exchange (stdin : ℕ → List Byte) : System Exchange Action where
  init e := e = Exchange.start stdin
  next := Exchange.next

end LinuxSystemProgramming.MessageQueue
