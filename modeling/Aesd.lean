import Aesd.Atomic.Core
import Aesd.Atomic.Linearizable
import Aesd.Atomic.Order
import Aesd.Atomic.Progress
import Aesd.Atomic.Section
import Aesd.Driver.Alone
import Aesd.Driver.Calls
import Aesd.Driver.Chunking
import Aesd.Driver.CircularBuffer
import Aesd.Driver.Concurrent
import Aesd.Driver.Device
import Aesd.Driver.Fifo
import Aesd.Driver.Follow
import Aesd.Driver.Guarded
import Aesd.Driver.History
import Aesd.Driver.Indices
import Aesd.Driver.Llseek
import Aesd.Driver.LockBalance
import Aesd.Driver.Log
import Aesd.Driver.Module
import Aesd.Driver.Ownership
import Aesd.Driver.Read
import Aesd.Driver.Retry
import Aesd.Driver.Routine
import Aesd.Driver.Seek
import Aesd.Driver.Simulation
import Aesd.Driver.Uninitialised
import Aesd.Driver.Unload
import Aesd.Examples.SystemCalls
import Aesd.Examples.Threading
import Aesd.Memory.Core
import Aesd.Memory.Frame
import Aesd.Memory.Slist
import Aesd.Mutex.Core
import Aesd.Ring.Core
import Aesd.Server.Aesdchar
import Aesd.Server.Answers
import Aesd.Server.Core
import Aesd.Server.Echo
import Aesd.Server.FileMutex
import Aesd.Server.Flags
import Aesd.Server.Handler
import Aesd.Server.Journal
import Aesd.Server.LastNode
import Aesd.Server.Leftover
import Aesd.Server.Lifetime
import Aesd.Server.ListEvents
import Aesd.Server.Mixing
import Aesd.Server.Numeral
import Aesd.Server.Origins
import Aesd.Server.Packets
import Aesd.Server.Progress
import Aesd.Server.Reap
import Aesd.Server.Receive
import Aesd.Server.Records
import Aesd.Server.Release
import Aesd.Server.SeekExit
import Aesd.Server.SeekReply
import Aesd.Server.SeekText
import Aesd.Server.SeekTurn
import Aesd.Server.Serial
import Aesd.Server.Shutdown
import Aesd.Server.Stream
import Aesd.Server.Text
import Aesd.Server.ThreadList
import Aesd.Server.Timestamps
import Aesd.Server.TurnOrder
import Aesd.Transition.Core
import Aesd.Word.Chunks
import Aesd.Word.Lines
import Aesd.Word.Locate
import Aesd.Word.Pieces
import Aesd.Word.Span
