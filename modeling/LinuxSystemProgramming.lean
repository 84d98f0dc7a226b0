import LinuxSystemProgramming.Lib.Transition
import LinuxSystemProgramming.Fifo.ReaderMoves
import LinuxSystemProgramming.Fifo.Writer
import LinuxSystemProgramming.Fifo.WriterMoves
import LinuxSystemProgramming.Fifo.Channel
import LinuxSystemProgramming.Fifo.ManyWriters
import LinuxSystemProgramming.Fifo.Feed
import LinuxSystemProgramming.Fifo.Parser
import LinuxSystemProgramming.Fifo.EndOfStream
import LinuxSystemProgramming.Fifo.CutStream
import LinuxSystemProgramming.Lib.Mutex
import LinuxSystemProgramming.Lib.RingBuffer
import LinuxSystemProgramming.ReadyQueue.Threads
import LinuxSystemProgramming.ReadyQueue.Moves
import LinuxSystemProgramming.ReadyQueue.Locks
import LinuxSystemProgramming.ReadyQueue.Handshake
import LinuxSystemProgramming.ReadyQueue.Joining
import LinuxSystemProgramming.ReadyQueue.Safety
import LinuxSystemProgramming.ReadyQueue.Wakeups
import LinuxSystemProgramming.Lib.NamedObjects
import LinuxSystemProgramming.MessageQueue.Programs
import LinuxSystemProgramming.MessageQueue.Delivery
import LinuxSystemProgramming.Lib.Semaphore
import LinuxSystemProgramming.SharedMemory.Programs
import LinuxSystemProgramming.SharedMemory.Delivery
import LinuxSystemProgramming.SharedMemory.Lifetime
import LinuxSystemProgramming.Lib.Counting
import LinuxSystemProgramming.Lib.SemaphoreLedger
import LinuxSystemProgramming.NamedSemaphore.Programs
import LinuxSystemProgramming.NamedSemaphore.Completion
import LinuxSystemProgramming.NamedSemaphore.Admission
import LinuxSystemProgramming.NamedSemaphore.FreshRun
import LinuxSystemProgramming.NamedSemaphore.EarlierRuns
import LinuxSystemProgramming.WorkerPool.Pool
import LinuxSystemProgramming.WorkerPool.FailedWaits
import LinuxSystemProgramming.Cancellation.Moves
import LinuxSystemProgramming.Cancellation.Discipline
import LinuxSystemProgramming.Cancellation.Safety
import LinuxSystemProgramming.Cancellation.Target
import LinuxSystemProgramming.HandOver.Moves
import LinuxSystemProgramming.HandOver.Discipline
import LinuxSystemProgramming.HandOver.Lifetime
import LinuxSystemProgramming.HandOver.Safety
import LinuxSystemProgramming.Lib.Signals
import LinuxSystemProgramming.SignalHandshake.Programs
import LinuxSystemProgramming.SignalHandshake.Moves
import LinuxSystemProgramming.SignalHandshake.Discipline
import LinuxSystemProgramming.SignalHandshake.Arrival
import LinuxSystemProgramming.SignalHandshake.DeadChild
import LinuxSystemProgramming.Fifo.StopRequest
import LinuxSystemProgramming.FileOperations.Search
import LinuxSystemProgramming.FileOperations.Replacement
import LinuxSystemProgramming.FileOperations.SearchBounds
import LinuxSystemProgramming.ReadyQueue.Queue
import LinuxSystemProgramming.Fifo.LinePerFrame
import LinuxSystemProgramming.MessageQueue.LineLimit
import LinuxSystemProgramming.SharedStore.Runs
import LinuxSystemProgramming.FileOperations.WriteHelpers
import LinuxSystemProgramming.FileOperations.WholeFile
import LinuxSystemProgramming.GrayImage.Conversion
import LinuxSystemProgramming.ChildMonitor.Monitor
import LinuxSystemProgramming.ChildMonitor.Accounting
import LinuxSystemProgramming.Lib.ThreadDiscipline
import LinuxSystemProgramming.Lib.ThreadOrder
import LinuxSystemProgramming.Lib.ThreadProgress
import LinuxSystemProgramming.JoinedThreads.Handshakes
import LinuxSystemProgramming.JoinedThreads.SharedBlock
import LinuxSystemProgramming.Lib.Pipe
import LinuxSystemProgramming.Pipes.ParentAndChild
import LinuxSystemProgramming.Pipes.Delivery
import LinuxSystemProgramming.Pipes.Ending
import LinuxSystemProgramming.SignalLoops.Catching
import LinuxSystemProgramming.SignalLoops.Timer
import LinuxSystemProgramming.Lib.ForkWait
import LinuxSystemProgramming.Lib.ParentEndings
import LinuxSystemProgramming.Lib.ParentRuns
import LinuxSystemProgramming.WaitingParents.Endings
import LinuxSystemProgramming.Lib.Descriptors
import LinuxSystemProgramming.SharedDescriptors.ParentAndChild
import LinuxSystemProgramming.SharedDescriptors.Duplicates
import LinuxSystemProgramming.Fifo.Completion
import LinuxSystemProgramming.WorkerPool.Completion
import LinuxSystemProgramming.NamedSemaphore.Ending
import LinuxSystemProgramming.Lib.EndlessRuns
import LinuxSystemProgramming.ReadyQueue.Ending
import LinuxSystemProgramming.TimedLock.Deadline
