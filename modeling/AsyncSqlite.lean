import AsyncSqlite.Lts.Core
import AsyncSqlite.Lts.History
import AsyncSqlite.Lts.Run
import AsyncSqlite.Lts.PriorityQueue
import AsyncSqlite.Lts.Owner
import AsyncSqlite.Lts.Rank
import AsyncSqlite.Heap.IntrusiveList
import AsyncSqlite.Heap.Shared
import AsyncSqlite.Heap.Bytes
import AsyncSqlite.Heap.Store
import AsyncSqlite.Data.OrderedMap
import AsyncSqlite.Data.RecentRing
import AsyncSqlite.Data.Stream
import AsyncSqlite.Data.ByteFeed
import AsyncSqlite.Data.Log
import AsyncSqlite.Data.Smear
import AsyncSqlite.Data.ShiftRegister
import AsyncSqlite.Data.Verdicts
import AsyncSqlite.Data.Wrapping
import AsyncSqlite.Data.Cells
import AsyncSqlite.Data.Spread
import AsyncSqlite.Data.Attempt
import AsyncSqlite.Thread.Model
import AsyncSqlite.Thread.Step
import AsyncSqlite.Thread.Lifecycle
import AsyncSqlite.Thread.Queue
import AsyncSqlite.Thread.Accounting
import AsyncSqlite.Thread.Handler
import AsyncSqlite.Thread.Drain
import AsyncSqlite.Thread.Custody
import AsyncSqlite.Thread.Watchdog
import AsyncSqlite.Thread.Alarm
import AsyncSqlite.Thread.Registry
import AsyncSqlite.Port.Ledger
import AsyncSqlite.Port.FreeRtos
import AsyncSqlite.Port.FreeRtosHistory
import AsyncSqlite.Port.RtosWatchdog
import AsyncSqlite.Port.Priority
import AsyncSqlite.Port.Win32
import AsyncSqlite.Port.Win32History
import AsyncSqlite.Port.Shutdown
import AsyncSqlite.Port.TickClock
import AsyncSqlite.Port.RtosThread
import AsyncSqlite.Port.RtosHistory
import AsyncSqlite.Port.RtosExit
import AsyncSqlite.Port.RtosOrder
import AsyncSqlite.Delegate.AsyncWait
import AsyncSqlite.Delegate.AsyncFuture
import AsyncSqlite.Delegate.Multicast
import AsyncSqlite.Delegate.Broadcast
import AsyncSqlite.Delegate.Signal
import AsyncSqlite.Delegate.LiveSignal
import AsyncSqlite.Delegate.Connected
import AsyncSqlite.Delegate.Semaphore
import AsyncSqlite.Delegate.SemaphoreRest
import AsyncSqlite.Delegate.HeapArgs
import AsyncSqlite.Delegate.ArgHeap
import AsyncSqlite.Delegate.Equality
import AsyncSqlite.Delegate.Subscribers
import AsyncSqlite.Timer.Model
import AsyncSqlite.Timer.List
import AsyncSqlite.Timer.Stop
import AsyncSqlite.Timer.Delegate
import AsyncSqlite.Timer.Ownership
import AsyncSqlite.Timer.Gate
import AsyncSqlite.Timer.Paced
import AsyncSqlite.Timer.Dangling
import AsyncSqlite.Timer.Expired
import AsyncSqlite.Timer.Periodic
import AsyncSqlite.Sqlite.Model
import AsyncSqlite.Sqlite.Step
import AsyncSqlite.Sqlite.Dispatch
import AsyncSqlite.Sqlite.Calls
import AsyncSqlite.Sqlite.Blocking
import AsyncSqlite.Sqlite.Stranded
import AsyncSqlite.Sqlite.Programs
import AsyncSqlite.Sqlite.Order
import AsyncSqlite.Sqlite.Fifo
import AsyncSqlite.Sqlite.Held
import AsyncSqlite.Sqlite.Future
import AsyncSqlite.Sqlite.Submission
import AsyncSqlite.Sqlite.Api
import AsyncSqlite.Sqlite.Exclusive
import AsyncSqlite.Remote.Monitor
import AsyncSqlite.Remote.Status
import AsyncSqlite.Remote.Transport
import AsyncSqlite.Remote.Retry
import AsyncSqlite.Remote.RetrySystem
import AsyncSqlite.Remote.Resend
import AsyncSqlite.Remote.Orphan
import AsyncSqlite.Remote.Drain
import AsyncSqlite.Remote.Participant
import AsyncSqlite.Remote.AtMostOnce
import AsyncSqlite.Serialize.Schema
import AsyncSqlite.Serialize.Write
import AsyncSqlite.Serialize.Read
import AsyncSqlite.Serialize.Received
import AsyncSqlite.Serialize.RoundTrip
import AsyncSqlite.Serialize.Depth
import AsyncSqlite.Serialize.Versions
import AsyncSqlite.Serialize.Extent
import AsyncSqlite.Serialize.Bounds
import AsyncSqlite.Serialize.Text
import AsyncSqlite.Remote.Delegate
import AsyncSqlite.Remote.Channel
import AsyncSqlite.Remote.InvokeWait
import AsyncSqlite.Remote.Invoke
import AsyncSqlite.Remote.Message
import AsyncSqlite.Remote.EndToEnd
import AsyncSqlite.Remote.UdpPorts
import AsyncSqlite.Remote.Engine
import AsyncSqlite.Remote.EngineControl
import AsyncSqlite.Remote.EngineLedger
import AsyncSqlite.Remote.EngineStop
import AsyncSqlite.Remote.Tcp
import AsyncSqlite.Remote.TcpStream
import AsyncSqlite.Remote.Crc16
import AsyncSqlite.Remote.CrcLoop
import AsyncSqlite.Remote.RingBuffer
import AsyncSqlite.Remote.Serial
import AsyncSqlite.Remote.Uart
import AsyncSqlite.Remote.Resync
import AsyncSqlite.Databus.Model
import AsyncSqlite.Databus.Types
import AsyncSqlite.Databus.LastValue
import AsyncSqlite.Databus.NetworkNode
import AsyncSqlite.Databus.MonotonicGuard
import AsyncSqlite.Databus.RateLimiter
import AsyncSqlite.Databus.Deadline
import AsyncSqlite.Databus.Unhandled
import AsyncSqlite.Databus.ParticipantTable
import AsyncSqlite.Databus.Subscribed
import AsyncSqlite.Databus.ErrorConnections
import AsyncSqlite.Databus.Relay
import AsyncSqlite.Allocator.Model
import AsyncSqlite.Allocator.Blocks
import AsyncSqlite.Allocator.Pool
import AsyncSqlite.Allocator.Sizes
import AsyncSqlite.Allocator.Xallocator
import AsyncSqlite.Allocator.Capacity
import AsyncSqlite.Allocator.Threads
import AsyncSqlite.Allocator.Table
import AsyncSqlite.Allocator.Owners
import AsyncSqlite.Allocator.Consistency
