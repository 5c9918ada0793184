import AsyncSqlite.Lts.Core
import AsyncSqlite.Remote.Transport

/-!
# AsyncSqlite.Remote.Engine — `NetworkEngine`

The two threads of `extras/util/NetworkEngine.cpp` and the calls of any number of
other threads: the receive thread, which takes datagrams from the transport and has
each one handled by the network thread, and the network thread, which takes messages
from a bounded queue that drops what does not fit.

* **Blocking calls**: `RecvThread` waits in `AsyncInvoke` for `Incoming`, for one
  second at most. A message whose caller has given up stays in the queue and does
  nothing. While `Incoming` runs it holds the lock of its message, so its caller does
  not get away before it is done.
* **References**: `Incoming` reads the header that `RecvThread` declared and the
  stream that its argument points to, both at the time it runs. `RecvThread` keeps
  its stream for the next datagram unless it has passed it on.
* **Transport**: what `Receive` returns is the choice of the label, also after
  `Close`. Time is left out; the wait may run into its timeout at any step.
* **`Stop`** from another thread is taken apart: it tests the flag, sets it, exits
  and joins the receive thread, and posts the rest of its work. Where two of them have
  both seen the flag unset, both come back from the join; of `std::thread::join` the
  second one throws or worse, which is left out. The calls that the
  network thread makes itself, from the callbacks it runs, take one step.
* **History**: `received`, `fates` and `invocations` are read by no step.
-/

namespace AsyncSqlite

/-- A datagram that `Receive` has returned. -/
structure EngineFrame where
  header : DmqHeader
  payload : List UInt8
deriving DecidableEq

/-- What becomes of a datagram. -/
inductive FrameFate where
  /-- `arg_data->str().empty()` -/
  | empty
  /-- `m_recvThreadExit` was set when it came -/
  | exiting
  /-- the queue of the network thread was full -/
  | refused
  /-- the network thread did not come to it within `INVOKE_TIMEOUT` -/
  | expired
  /-- an ACK -/
  | filtered
  /-- no endpoint is registered for it -/
  | unknown
  | invoked (endpoint : ℕ)
deriving DecidableEq

/-- A message for the network thread. -/
inductive EngineJob where
  /-- `Incoming` for the datagram number `k`, which is in a stream -/
  | incoming (k stream : ℕ)
  | start
  | stop (call : ℕ)
  | registerEndpoint (id : UInt16) (endpoint : Option ℕ)
  /-- `Initialize`; `connects` is false where a serial port did not open -/
  | doInitialize (connects : Bool)
  /-- a tick of the timer, a send, what a derived class posts -/
  | other
deriving DecidableEq

namespace EngineJob

/-- The number of the datagram. -/
def number : EngineJob → Option ℕ
  | .incoming k _ => some k
  | _ => none

/-- A call of the API, or what else is posted from outside; `Stop` posts its message
by itself. -/
def isCall : EngineJob → Bool
  | .incoming .. | .stop _ => false
  | _ => true

/-- What a callback can call on the network thread. -/
def isCallback : EngineJob → Bool
  | .incoming .. | .other => false
  | _ => true

end EngineJob

/-- Where the network thread is. -/
inductive NetworkPc where
  | idle
  /-- has popped a message and not entered its `Invoke` yet -/
  | taken (job : EngineJob)
  | running (job : EngineJob)
  /-- in `Start` behind `CreateThread`; in a callback of the job, if there is one -/
  | starting (callback : Option EngineJob)
  | faulted
deriving DecidableEq

namespace NetworkPc

def isTaken : NetworkPc → Bool
  | .taken _ => true
  | _ => false

def isRunning : NetworkPc → Bool
  | .running _ => true
  | _ => false

def isStarting : NetworkPc → Bool
  | .starting _ => true
  | _ => false

/-- The job whose function is being executed. -/
def job : NetworkPc → Option EngineJob
  | .running job => some job
  | .starting callback => callback
  | _ => none

end NetworkPc

/-- Where `RecvThread` is. -/
inductive RecvPc where
  /-- not posted -/
  | none
  | posted
  /-- about to test `m_recvThreadExit` -/
  | loop
  | receive
  /-- `Receive` has returned a datagram -/
  | got
  /-- the tests are passed -/
  | passed
  /-- in `AsyncInvoke` for the datagram number `k` -/
  | waiting (k : ℕ)
  /-- `Incoming` is done -/
  | woken
  | returned
deriving DecidableEq

inductive StopEnd where
  /-- the flag was set already -/
  | early
  /-- the queue of the network thread was full -/
  | refused
  | finished
deriving DecidableEq

/-- Where a call of `Stop` from another thread is. -/
inductive StopPc where
  | idle
  /-- has found `m_recvThreadExit` false -/
  | tested
  /-- has set it, and closes the transports -/
  | flagged
  | joining
  | joined
  /-- its message is posted -/
  | waiting
  /-- its message has been processed -/
  | done
  | returned (how : StopEnd)
deriving DecidableEq

structure NetworkEngine where
  /-- the queue of `m_thread` -/
  queue : List EngineJob
  network : NetworkPc
  recv : RecvPc
  /-- `m_recvThread` has a thread -/
  recvThread : Bool
  /-- `m_exit` of `m_recvThread` -/
  recvThreadDone : Bool
  /-- `m_recvThreadExit` -/
  recvThreadExit : Bool
  /-- `m_recvThreadCreated` -/
  recvThreadCreated : Bool
  /-- `m_timeoutTimer` runs and is connected -/
  timer : Bool
  /-- `m_statusConn` is connected -/
  statusConn : Bool
  /-- `m_receiveIdMap`; `none` is a missing entry or a null pointer -/
  receiveIdMap : UInt16 → Option ℕ
  /-- the local variable of `RecvThread` -/
  header : DmqHeader
  /-- `arg_data` -/
  argData : Option ℕ
  streams : ℕ → List UInt8
  /-- the number of streams ever made -/
  allocated : ℕ
  calls : ℕ → StopPc
  received : List EngineFrame
  /-- of the datagrams received, in the same order -/
  fates : List FrameFate
  /-- the endpoints that were invoked and the bytes that each of them was given -/
  invocations : List (ℕ × List UInt8)

namespace NetworkEngine

def initial : NetworkEngine where
  queue := []
  network := .idle
  recv := .none
  recvThread := false
  recvThreadDone := false
  recvThreadExit := false
  recvThreadCreated := false
  timer := false
  statusConn := false
  receiveIdMap := fun _ => none
  header := .make 0 0
  argData := none
  streams := fun _ => []
  allocated := 0
  calls := fun _ => .idle
  received := []
  fates := []
  invocations := []

/-! ## The network thread -/

/-- The queue size that the constructor asks for. -/
def maxQueue : ℕ := 25

def isFull (s : NetworkEngine) : Bool := maxQueue ≤ s.queue.length

/-- `DispatchDelegate` of `m_thread`. -/
def post (s : NetworkEngine) (job : EngineJob) : NetworkEngine :=
  if s.isFull then s else { s with queue := s.queue ++ [job] }

/-- `Start` on the network thread, up to the post of `RecvThread`. -/
def start (s : NetworkEngine) (callback : Option EngineJob) : NetworkEngine :=
  if s.recvThreadCreated then { s with timer := true }
  else
    { s with
      recvThreadCreated := true, recvThread := true, recvThreadDone := false
      network := .starting callback }

/-- The rest of `Start`. A thread that is told to exit accepts no message. -/
def startPost (s : NetworkEngine) (callback : Option EngineJob) : NetworkEngine :=
  { s with
    recv := if s.recvThreadDone then s.recv else .posted
    timer := true
    network := match callback with
      | none => .idle
      | some job => .running job }

/-- `Stop` on the network thread. -/
def stop (s : NetworkEngine) : NetworkEngine := { s with timer := false, statusConn := false }

/-- `RegisterEndpoint` on the network thread. -/
def registerEndpoint (s : NetworkEngine) (id : UInt16) (endpoint : Option ℕ) : NetworkEngine :=
  { s with receiveIdMap := Function.update s.receiveIdMap id endpoint }

/-- `Incoming`. -/
def incoming (s : NetworkEngine) (stream : ℕ) : NetworkEngine :=
  if s.header.id = ackRemoteId then { s with fates := s.fates ++ [.filtered] }
  else
    match s.receiveIdMap s.header.id with
    | some endpoint =>
      { s with
        fates := s.fates ++ [.invoked endpoint]
        invocations := s.invocations ++ [(endpoint, s.streams stream)] }
    | none => { s with fates := s.fates ++ [.unknown] }

/-- `Invoke` of a message that was popped. -/
def begin (s : NetworkEngine) : EngineJob → NetworkEngine
  | .incoming k stream =>
    if s.recv = .waiting k then { s.incoming stream with network := .running (.incoming k stream) }
    else { s with network := .idle }
  | .start => { s with network := .idle }.start none
  | .stop call =>
    { s.stop with
      network := .idle
      calls := Function.update s.calls call
        (if s.calls call = .waiting then .done else s.calls call) }
  | .registerEndpoint id endpoint => { s.registerEndpoint id endpoint with network := .idle }
  | .doInitialize connects => { s with network := .idle, statusConn := s.statusConn || connects }
  | .other => { s with network := .running .other }

/-- The end of a job, also by an exception: whoever waits for it is signaled. -/
def finish (s : NetworkEngine) (network : NetworkPc) (job : EngineJob) : NetworkEngine :=
  { s with
    network := network
    recv := match job.number with
      | some k => if s.recv = .waiting k then .woken else s.recv
      | none => s.recv }

/-! ## `RecvThread` -/

/-- The head of the loop: the header is a new one, and so is the stream unless the
last one was kept. -/
def recvLoop (s : NetworkEngine) : NetworkEngine :=
  if s.recvThreadExit then { s with recv := .returned }
  else
    match s.argData with
    | none =>
      { s with
        recv := .receive, header := .make 0 0, argData := some s.allocated
        streams := Function.update s.streams s.allocated [], allocated := s.allocated + 1 }
    | some stream =>
      { s with
        recv := .receive, header := .make 0 0
        streams := Function.update s.streams stream [] }

/-- `Receive` writes the header and the stream. -/
def receive (s : NetworkEngine) (frame : EngineFrame) : NetworkEngine :=
  match s.argData with
  | none => { s with header := frame.header }
  | some stream =>
    { s with
      header := frame.header
      streams := Function.update s.streams stream frame.payload }

def receiveFrame (s : NetworkEngine) (frame : EngineFrame) : NetworkEngine :=
  { s.receive frame with recv := .got, received := s.received ++ [frame] }

/-- An error, after which there may be anything in the header and the stream. -/
def receiveError (s : NetworkEngine) (rest : EngineFrame) : NetworkEngine :=
  { s.receive rest with recv := .loop }

/-- The stream of `arg_data`. -/
def argBytes (s : NetworkEngine) : List UInt8 :=
  match s.argData with
  | none => []
  | some stream => s.streams stream

def recvTest (s : NetworkEngine) : NetworkEngine :=
  if s.argBytes = [] then { s with recv := .loop, fates := s.fates ++ [.empty] }
  else if s.recvThreadExit then { s with recv := .loop, fates := s.fates ++ [.exiting] }
  else { s with recv := .passed }

/-- `AsyncInvoke` up to the wait, and the rest of the body if there is none. -/
def recvPost (s : NetworkEngine) : NetworkEngine :=
  match s.argData with
  | none => s
  | some stream =>
    if s.isFull then { s with recv := .loop, argData := none, fates := s.fates ++ [.refused] }
    else
      { s with
        queue := s.queue ++ [.incoming (s.received.length - 1) stream]
        recv := .waiting (s.received.length - 1) }

def recvTimeout (s : NetworkEngine) : NetworkEngine :=
  { s with recv := .loop, argData := none, fates := s.fates ++ [.expired] }

def recvWake (s : NetworkEngine) : NetworkEngine := { s with recv := .loop, argData := none }

/-- The datagram that `Incoming` is running for. -/
def handling (s : NetworkEngine) : Option ℕ := s.network.job.bind EngineJob.number

/-- The wait for a message that the network thread has not entered may end. -/
def canTimeout (s : NetworkEngine) : Bool :=
  match s.recv with
  | .waiting k => s.handling ≠ some k
  | _ => false

/-! ## `Stop` from another thread -/

def setCall (s : NetworkEngine) (call : ℕ) (pc : StopPc) : NetworkEngine :=
  { s with calls := Function.update s.calls call pc }

def stopTest (s : NetworkEngine) (call : ℕ) : NetworkEngine :=
  s.setCall call (if s.recvThreadExit then .returned .early else .tested)

def stopFlag (s : NetworkEngine) (call : ℕ) : NetworkEngine :=
  { s.setCall call .flagged with recvThreadExit := true }

/-- `ExitThread` of `m_recvThread`, up to the join. -/
def stopExit (s : NetworkEngine) (call : ℕ) : NetworkEngine :=
  if s.recvThread then { s.setCall call .joining with recvThreadDone := true }
  else s.setCall call .joined

def stopJoin (s : NetworkEngine) (call : ℕ) : NetworkEngine :=
  { s.setCall call .joined with recvThread := false }

def stopPost (s : NetworkEngine) (call : ℕ) : NetworkEngine :=
  if s.isFull then s.setCall call (.returned .refused)
  else { s.setCall call .waiting with queue := s.queue ++ [.stop call] }

end NetworkEngine

/-! ## The transition system -/

inductive EngineLabel where
  /-- a call of `Start`, `Initialize`, `RegisterEndpoint` or anything else that is
  marshaled to the network thread -/
  | post (job : EngineJob)
  | stopTest (call : ℕ)
  | stopFlag (call : ℕ)
  | stopExit (call : ℕ)
  | stopJoin (call : ℕ)
  | stopPost (call : ℕ)
  | stopReturn (call : ℕ)
  | take
  | begin
  | startPost
  | finish
  /-- a callback throws: the network thread faults -/
  | throw
  /-- `Start`, `Stop`, `RegisterEndpoint` or `Initialize`, called by a callback -/
  | callback (job : EngineJob)
  | recvStart
  | recvLoop
  | receiveFrame (frame : EngineFrame)
  | receiveError (rest : EngineFrame)
  | recvTest
  | recvPost
  | recvTimeout
  | recvWake

namespace NetworkEngine

def guard : EngineLabel → NetworkEngine → Prop
  | .post job, _ => job.isCall = true
  | .stopTest call, s => s.calls call = .idle
  | .stopFlag call, s => s.calls call = .tested
  | .stopExit call, s => s.calls call = .flagged
  | .stopJoin call, s => s.calls call = .joining ∧ (s.recv = .none ∨ s.recv = .returned)
  | .stopPost call, s => s.calls call = .joined
  | .stopReturn call, s => s.calls call = .done
  | .take, s => s.network = .idle ∧ s.queue ≠ []
  | .begin, s => s.network.isTaken = true
  | .startPost, s => s.network.isStarting = true
  | .finish, s | .throw, s => s.network.isRunning = true
  | .callback job, s => s.network.isRunning = true ∧ job.isCallback = true
  | .recvStart, s => s.recv = .posted
  | .recvLoop, s => s.recv = .loop
  | .receiveFrame _, s | .receiveError _, s => s.recv = .receive
  | .recvTest, s => s.recv = .got
  | .recvPost, s => s.recv = .passed
  | .recvTimeout, s => s.canTimeout = true
  | .recvWake, s => s.recv = .woken

/-- What a callback calls on the network thread. -/
def callback (s : NetworkEngine) : EngineJob → NetworkEngine
  | .start =>
    match s.network with
    | .running job => s.start (some job)
    | _ => s
  | .stop _ => s.stop
  | .registerEndpoint id endpoint => s.registerEndpoint id endpoint
  | .doInitialize connects => { s with statusConn := s.statusConn || connects }
  | .incoming .. | .other => s

def update : EngineLabel → NetworkEngine → NetworkEngine
  | .post job, s => s.post job
  | .stopTest call, s => s.stopTest call
  | .stopFlag call, s => s.stopFlag call
  | .stopExit call, s => s.stopExit call
  | .stopJoin call, s => s.stopJoin call
  | .stopPost call, s => s.stopPost call
  | .stopReturn call, s => s.setCall call (.returned .finished)
  | .take, s =>
    match s.queue with
    | [] => s
    | job :: jobs => { s with queue := jobs, network := .taken job }
  | .begin, s =>
    match s.network with
    | .taken job => s.begin job
    | _ => s
  | .startPost, s =>
    match s.network with
    | .starting job => s.startPost job
    | _ => s
  | .finish, s =>
    match s.network with
    | .running job => s.finish .idle job
    | _ => s
  | .throw, s =>
    match s.network with
    | .running job => s.finish .faulted job
    | _ => s
  | .callback job, s => s.callback job
  | .recvStart, s => { s with recv := .loop }
  | .recvLoop, s => s.recvLoop
  | .receiveFrame frame, s => s.receiveFrame frame
  | .receiveError rest, s => s.receiveError rest
  | .recvTest, s => s.recvTest
  | .recvPost, s => s.recvPost
  | .recvTimeout, s => s.recvTimeout
  | .recvWake, s => s.recvWake

instance (l : EngineLabel) (s : NetworkEngine) : Decidable (guard l s) :=
  match l with
  | .post job => inferInstanceAs (Decidable (job.isCall = true))
  | .stopTest call => inferInstanceAs (Decidable (s.calls call = .idle))
  | .stopFlag call => inferInstanceAs (Decidable (s.calls call = .tested))
  | .stopExit call => inferInstanceAs (Decidable (s.calls call = .flagged))
  | .stopJoin call =>
    inferInstanceAs (Decidable (s.calls call = .joining ∧ (s.recv = .none ∨ s.recv = .returned)))
  | .stopPost call => inferInstanceAs (Decidable (s.calls call = .joined))
  | .stopReturn call => inferInstanceAs (Decidable (s.calls call = .done))
  | .take => inferInstanceAs (Decidable (s.network = .idle ∧ s.queue ≠ []))
  | .begin => inferInstanceAs (Decidable (s.network.isTaken = true))
  | .startPost => inferInstanceAs (Decidable (s.network.isStarting = true))
  | .finish | .throw => inferInstanceAs (Decidable (s.network.isRunning = true))
  | .callback job =>
    inferInstanceAs (Decidable (s.network.isRunning = true ∧ job.isCallback = true))
  | .recvStart => inferInstanceAs (Decidable (s.recv = .posted))
  | .recvLoop => inferInstanceAs (Decidable (s.recv = .loop))
  | .receiveFrame _ | .receiveError _ => inferInstanceAs (Decidable (s.recv = .receive))
  | .recvTest => inferInstanceAs (Decidable (s.recv = .got))
  | .recvPost => inferInstanceAs (Decidable (s.recv = .passed))
  | .recvTimeout => inferInstanceAs (Decidable (s.canTimeout = true))
  | .recvWake => inferInstanceAs (Decidable (s.recv = .woken))

end NetworkEngine

def engineLts : Lts NetworkEngine EngineLabel where
  init := fun s => s = NetworkEngine.initial
  guard := NetworkEngine.guard
  update := NetworkEngine.update

instance (l : EngineLabel) (s : NetworkEngine) : Decidable (engineLts.guard l s) :=
  inferInstanceAs (Decidable (NetworkEngine.guard l s))

end AsyncSqlite
