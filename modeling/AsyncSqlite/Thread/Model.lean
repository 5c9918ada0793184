import Mathlib.Logic.Function.Basic
import AsyncSqlite.Lts.Core

/-!
# AsyncSqlite.Thread.Model — the stdlib `Thread`

The worker thread of `port/os/stdlib/Thread.cpp`: two message queues under
`m_mutex`, any number of callers of `DispatchDelegate`, the `Process` loop, and
the life cycle (`CreateThread`, `ExitThread`, a thread that exits itself from
inside a handler, a thread that is created again).

Reading guide:

* A critical section of `m_mutex` is one step, because everything it reads or
  writes is guarded by that mutex, except for `m_exit`. `m_exit` is set only
  inside the mutex and is cleared only by a `CreateThread` that found
  `m_thread` empty, so one read of it per section loses no behaviour.
* The unlocked reads in front of a critical section (`m_exit`, `m_thread`) are
  steps of their own. So is every point where `m_mutex` is given up: the wait
  on `m_cvNotFull`, the wait on `m_cv`, the end of a section.
* Time is left out. A timed wait may end at any step; whether it ended by a
  notification, by the clock or spuriously is the choice of the label.
* `CreateThread` and `ExitThread` write the plain `std::optional<std::thread>`
  `m_thread`, so two of them at once are a data race. At most one is in
  progress (`control`); everything else interleaves with it freely.
* A fault (`ASSERT`) does not return, so the thread that reaches it stays there
  (`faulted`) while the others go on until the process ends.
-/

namespace AsyncSqlite

/-! ## Messages -/

/-- `dmq::Priority`. -/
inductive Priority where
  | normal | high
deriving DecidableEq, Repr

/-- A shared `DelegateMsg`. `id` is the identity of the shared pointer: every
`operator()` builds a message of its own. -/
structure DelegateMsg where
  id : ℕ
  /-- `GetInvoker() != nullptr` -/
  invoker : Bool
  priority : Priority
deriving DecidableEq, Repr

/-- `MSG_DISPATCH_DELEGATE` and `MSG_EXIT_THREAD`. -/
inductive MsgId where
  | dispatchDelegate | exitThread
deriving DecidableEq, Repr

structure ThreadMsg where
  id : MsgId
  data : Option DelegateMsg
deriving DecidableEq, Repr

def ThreadMsg.getPriority (m : ThreadMsg) : Priority :=
  match m.data with
  | some d => d.priority
  | none => .normal

/-- The message whose invoker the `switch` on `GetId()` runs. -/
def ThreadMsg.target (m : ThreadMsg) : Option DelegateMsg :=
  match m.id, m.data with
  | .dispatchDelegate, some d => if d.invoker then some d else none
  | _, _ => none

/-- The queue entry of a delegate message. -/
abbrev ThreadMsg.delegate (m : DelegateMsg) : ThreadMsg := ⟨.dispatchDelegate, some m⟩

/-- The queue entry that `ExitThread` pushes. -/
abbrev ThreadMsg.exit : ThreadMsg := ⟨.exitThread, none⟩

inductive FullPolicy where
  | drop | fault | timeout
deriving DecidableEq, Repr

/-- The constructor arguments of a `Thread` that decide anything:
`MAX_QUEUE_SIZE` (0 is unlimited) and `FULL_POLICY`. -/
structure Config where
  maxQueueSize : ℕ
  fullPolicy : FullPolicy
deriving DecidableEq, Repr

/-! ## State -/

/-- `std::this_thread::get_id()`: some thread of the application, or the
`w`-th thread that ran `Process`. -/
inductive Tid where
  | client (c : ℕ)
  | worker (w : ℕ)
deriving DecidableEq, Repr

/-- Where a call of `DispatchDelegate` is. -/
inductive DispatchPc where
  | idle
  /-- found `m_exit` clear -/
  | entered (m : DelegateMsg)
  /-- found `m_thread` engaged; about to lock `m_mutex` -/
  | checked (m : DelegateMsg)
  /-- in `m_cvNotFull.wait_for` -/
  | waiting (m : DelegateMsg)
  | returned (m : DelegateMsg) (ok : Bool)
  /-- left by `std::invalid_argument` -/
  | threw (m : DelegateMsg)
  | faulted (m : DelegateMsg)
deriving DecidableEq, Repr

/-- Where a run of `Process` is. -/
inductive WorkerPc where
  | notStarted
  /-- before `m_threadStartPromise->set_value()` -/
  | starting
  /-- at `while (!selfExit)` -/
  | loop
  /-- about to lock `m_mutex` and to evaluate the wait predicate -/
  | lock
  /-- blocked in `m_cv.wait` -/
  | asleep
  /-- holds a popped message, mutex released -/
  | got (msg : ThreadMsg)
  /-- in `invoker->Invoke(delegateMsg)` -/
  | invoking (m : DelegateMsg)
  | faulted
  | finished
deriving DecidableEq, Repr

structure Worker where
  pc : WorkerPc
  selfExit : Bool
deriving DecidableEq, Repr

/-- The `CreateThread` or `ExitThread` call in progress. `t` is the thread
that calls `ExitThread`. -/
inductive ControlPc where
  | idle
  /-- `CreateThread` found `m_thread` empty; about to clear `m_exit` -/
  | createClear
  | createSpawn
  /-- in `m_threadStartFuture->get()` -/
  | createStart (w : ℕ)
  /-- `ExitThread` found `m_thread` engaged; about to lock `m_mutex` -/
  | exitPush (t : Tid)
  | exitJoin (t : Tid)
  | exitReset (t : Tid)
deriving DecidableEq, Repr

/-- How a delegate message left the queues. -/
inductive Removal where
  | popped | cleared
deriving DecidableEq, Repr

structure ThreadState where
  /-- `m_thread`: empty, or a `std::thread` whose id is `none` once it has been
  joined or detached -/
  thread : Option (Option ℕ)
  /-- `m_exit` -/
  exit : Bool
  highQueue : List ThreadMsg
  normalQueue : List ThreadMsg
  /-- the calls of `DispatchDelegate`, by message id -/
  dispatch : ℕ → DispatchPc
  /-- the threads that ran or run `Process` -/
  worker : ℕ → Worker
  spawned : ℕ
  control : ControlPc
  /-- history: delegate messages in the order of their pushes -/
  pushed : List DelegateMsg
  /-- history: delegate messages in the order in which they left the queues -/
  removed : List (DelegateMsg × Removal)
  /-- history: delegate messages in the order in which their invokers were run -/
  invoked : List DelegateMsg

namespace ThreadState

/-- A constructed `Thread` that was never created. -/
def initial : ThreadState where
  thread := none
  exit := false
  highQueue := []
  normalQueue := []
  dispatch := fun _ => .idle
  worker := fun _ => ⟨.notStarted, false⟩
  spawned := 0
  control := .idle
  pushed := []
  removed := []
  invoked := []

/-- Delegate messages that `Process` took out of a queue. -/
def popped (s : ThreadState) : List DelegateMsg :=
  (s.removed.filter (·.2 = .popped)).map (·.1)

/-- Delegate messages that `ExitThread` destroyed with the queues. -/
def cleared (s : ThreadState) : List DelegateMsg :=
  (s.removed.filter (·.2 = .cleared)).map (·.1)

/-- Delegate messages in the queue of one priority. -/
def queued (s : ThreadState) : Priority → List DelegateMsg
  | .high => s.highQueue.filterMap (·.data)
  | .normal => s.normalQueue.filterMap (·.data)

/-- `m_highQueue.size() + m_normalQueue.size()`. -/
def queueSize (s : ThreadState) : ℕ := s.highQueue.length + s.normalQueue.length

/-- `GetThreadId`: throws (outer `none`) while `m_thread` is empty; the inner
`none` is the default id of a joined or detached `std::thread`. -/
def getThreadId (s : ThreadState) : Option (Option Tid) :=
  s.thread.map (·.map .worker)

def setDispatch (s : ThreadState) (id : ℕ) (pc : DispatchPc) : ThreadState :=
  { s with dispatch := Function.update s.dispatch id pc }

def setWorker (s : ThreadState) (w : ℕ) (v : Worker) : ThreadState :=
  { s with worker := Function.update s.worker w v }

def setPc (s : ThreadState) (w : ℕ) (pc : WorkerPc) : ThreadState :=
  s.setWorker w { s.worker w with pc := pc }

/-! ## The queues -/

/-- `m_cv.notify_one()`. Only the current worker ever waits on `m_cv`, so
waking every sleeper and waking one are the same. -/
def notifyOne (f : ℕ → Worker) : ℕ → Worker := fun w =>
  if (f w).pc = .asleep then { f w with pc := .lock } else f w

/-- Push on the queue of the message's priority and notify the worker. -/
def push (s : ThreadState) (m : ThreadMsg) : ThreadState :=
  { s with
    highQueue := if m.getPriority = .high then s.highQueue ++ [m] else s.highQueue
    normalQueue := if m.getPriority = .high then s.normalQueue else s.normalQueue ++ [m]
    worker := notifyOne s.worker }

/-! ## `DispatchDelegate` -/

/-- The capacity test in front of the full-queue policies. -/
def full (cfg : Config) (s : ThreadState) : Prop :=
  0 < cfg.maxQueueSize ∧ cfg.maxQueueSize ≤ s.queueSize

/-- The predicate of the wait on `m_cvNotFull`. -/
def hasSpace (cfg : Config) (s : ThreadState) : Prop :=
  s.queueSize < cfg.maxQueueSize ∨ s.exit = true

instance (cfg : Config) (s : ThreadState) : Decidable (full cfg s) :=
  inferInstanceAs (Decidable (_ ∧ _))

instance (cfg : Config) (s : ThreadState) : Decidable (hasSpace cfg s) :=
  inferInstanceAs (Decidable (_ ∨ _))

/-- Push the message and return true. -/
def accept (s : ThreadState) (m : DelegateMsg) : ThreadState :=
  { (s.push (.delegate m)).setDispatch m.id (.returned m true) with
    pushed := s.pushed ++ [m] }

/-- The rest of the critical section once there is room: recheck `m_exit`,
push, notify. -/
def dispatchPush (s : ThreadState) (m : DelegateMsg) : ThreadState :=
  if s.exit then s.setDispatch m.id (.returned m false) else s.accept m

/-- The critical section of `DispatchDelegate`. -/
def dispatchLocked (cfg : Config) (s : ThreadState) (m : DelegateMsg) : ThreadState :=
  if full cfg s then
    match cfg.fullPolicy with
    | .drop => s.setDispatch m.id (.returned m false)
    | .fault => s.setDispatch m.id (.faulted m)
    | .timeout =>
      -- `wait_for` evaluates the predicate before it blocks
      if hasSpace cfg s then s.dispatchPush m else s.setDispatch m.id (.waiting m)
  else
    s.dispatchPush m

/-! ## `Process` -/

/-- Hold the popped message; its queue is replaced by the caller. -/
def take (s : ThreadState) (w : ℕ) (m : ThreadMsg) : ThreadState :=
  { s.setPc w (.got m) with removed := s.removed ++ m.data.toList.map (·, .popped) }

/-- The critical section of the loop: sleep, leave, or pop the message of the
highest priority. -/
def processTake (s : ThreadState) (w : ℕ) : ThreadState :=
  match s.highQueue, s.normalQueue with
  | m :: rest, _ => { s.take w m with highQueue := rest }
  | [], m :: rest => { s.take w m with normalQueue := rest }
  | [], [] => s.setPc w (if s.exit then .finished else .asleep)

/-- Enter `invoker->Invoke(delegateMsg)`. -/
def invoke (s : ThreadState) (w : ℕ) (m : DelegateMsg) : ThreadState :=
  { s.setPc w (.invoking m) with invoked := s.invoked ++ [m] }

/-- The `switch` on `GetId()`. -/
def processSwitch (s : ThreadState) (w : ℕ) (m : ThreadMsg) : ThreadState :=
  match m.target with
  | some d => s.invoke w d
  | none => s.setPc w (if m.id = .exitThread then .finished else .loop)

/-! ## `CreateThread` and `ExitThread` -/

/-- `m_thread.emplace(&Thread::Process, this)`. -/
def spawn (s : ThreadState) : ThreadState :=
  { s.setWorker s.spawned ⟨.starting, false⟩ with
    thread := some (some s.spawned)
    spawned := s.spawned + 1
    control := .createStart s.spawned }

/-- `m_thread->detach()` by the worker itself, which tells `Process` to leave
without touching the object again. -/
def detach (s : ThreadState) (h : ℕ) : ThreadState :=
  { s.setWorker h { s.worker h with selfExit := true } with
    thread := some none, control := .exitReset (.worker h) }

/-- The join, or the detach of a thread that exits itself. -/
def exitJoin (s : ThreadState) (t : Tid) : ThreadState :=
  match s.thread with
  | some (some h) =>
    if t = .worker h then s.detach h else { s with thread := some none, control := .exitReset t }
  | _ => { s with control := .exitReset t }

/-- The last critical section of `ExitThread`. -/
def exitReset (s : ThreadState) : ThreadState :=
  { s with
    thread := none
    highQueue := []
    normalQueue := []
    removed := s.removed ++ (s.queued .high ++ s.queued .normal).map (·, .cleared)
    control := .idle }

/-- `join` returns when `Process` has returned. -/
def joinReady (s : ThreadState) (t : Tid) : Prop :=
  match s.thread with
  | some (some h) => t = .worker h ∨ (s.worker h).pc = .finished
  | _ => True

instance (s : ThreadState) (t : Tid) : Decidable (joinReady s t) := by
  unfold joinReady
  split <;> infer_instance

end ThreadState

/-! ## The transition system -/

inductive ThreadLabel where
  /-- `CreateThread` begins -/
  | createThread
  | createClear
  | createSpawn
  | createStart (w : ℕ)
  /-- `ExitThread` begins on thread `t` -/
  | exitThread (t : Tid)
  | exitPush (t : Tid)
  | exitJoin (t : Tid)
  | exitReset (t : Tid)
  /-- `DispatchDelegate(m)` begins and reads `m_exit` -/
  | dispatchDelegate (m : DelegateMsg)
  /-- `m_thread.has_value()` -/
  | dispatchHasValue (m : DelegateMsg)
  | dispatchLocked (m : DelegateMsg)
  /-- the wait on `m_cvNotFull` evaluates its predicate -/
  | dispatchWake (m : DelegateMsg)
  /-- that wait runs into its timeout -/
  | dispatchTimeout (m : DelegateMsg)
  | processStart (w : ℕ)
  | processLoop (w : ℕ)
  | processTake (w : ℕ)
  /-- a spurious or timed wakeup from `m_cv` -/
  | processWake (w : ℕ)
  | processSwitch (w : ℕ) (m : ThreadMsg)
  | invokeReturn (w : ℕ) (m : DelegateMsg)
  /-- `Invoke` is left by an exception: the handlers in `Process` fault -/
  | invokeThrow (w : ℕ) (m : DelegateMsg)
deriving DecidableEq, Repr

namespace ThreadState

/-- A thread may call `ExitThread` if it is no worker, or a worker inside a
handler. -/
def mayExit (s : ThreadState) : Tid → Prop
  | .client _ => True
  | .worker w => match (s.worker w).pc with
    | .invoking _ => True
    | _ => False

instance (s : ThreadState) (t : Tid) : Decidable (mayExit s t) := by
  unfold mayExit
  split
  · infer_instance
  · split <;> infer_instance

/-- Worker `w` is inside its own `ExitThread` call. -/
def exiting (s : ThreadState) (w : ℕ) : Prop :=
  s.control = .exitPush (.worker w) ∨ s.control = .exitJoin (.worker w) ∨
    s.control = .exitReset (.worker w)

instance (s : ThreadState) (w : ℕ) : Decidable (exiting s w) :=
  inferInstanceAs (Decidable (_ ∨ _))

def guard : ThreadLabel → ThreadState → Prop
  | .createThread, s => s.control = .idle
  | .createClear, s => s.control = .createClear
  | .createSpawn, s => s.control = .createSpawn
  | .createStart w, s => s.control = .createStart w ∧ (s.worker w).pc ≠ .starting
  | .exitThread t, s => s.control = .idle ∧ s.mayExit t
  | .exitPush t, s => s.control = .exitPush t
  | .exitJoin t, s => s.control = .exitJoin t ∧ s.joinReady t
  | .exitReset t, s => s.control = .exitReset t
  | .dispatchDelegate m, s => s.dispatch m.id = .idle
  | .dispatchHasValue m, s => s.dispatch m.id = .entered m
  | .dispatchLocked m, s => s.dispatch m.id = .checked m
  | .dispatchWake m, s => s.dispatch m.id = .waiting m
  | .dispatchTimeout m, s => s.dispatch m.id = .waiting m
  | .processStart w, s => (s.worker w).pc = .starting
  | .processLoop w, s => (s.worker w).pc = .loop
  | .processTake w, s => (s.worker w).pc = .lock
  | .processWake w, s => (s.worker w).pc = .asleep
  | .processSwitch w m, s => (s.worker w).pc = .got m
  | .invokeReturn w m, s => (s.worker w).pc = .invoking m ∧ ¬ s.exiting w
  | .invokeThrow w m, s => (s.worker w).pc = .invoking m ∧ ¬ s.exiting w

def update (cfg : Config) : ThreadLabel → ThreadState → ThreadState
  | .createThread, s => if s.thread.isNone then { s with control := .createClear } else s
  | .createClear, s => { s with exit := false, control := .createSpawn }
  | .createSpawn, s => s.spawn
  | .createStart _, s => { s with control := .idle }
  | .exitThread t, s => if s.thread.isNone then s else { s with control := .exitPush t }
  | .exitPush t, s => { s.push .exit with exit := true, control := .exitJoin t }
  | .exitJoin t, s => s.exitJoin t
  | .exitReset _, s => s.exitReset
  | .dispatchDelegate m, s =>
    s.setDispatch m.id (if s.exit then .returned m false else .entered m)
  | .dispatchHasValue m, s =>
    s.setDispatch m.id (if s.thread.isNone then .threw m else .checked m)
  | .dispatchLocked m, s => s.dispatchLocked cfg m
  | .dispatchWake m, s => if hasSpace cfg s then s.dispatchPush m else s
  | .dispatchTimeout m, s =>
    -- the predicate is evaluated a last time when the timeout has passed
    if hasSpace cfg s then s.dispatchPush m else s.setDispatch m.id (.returned m false)
  | .processStart w, s => s.setPc w .loop
  | .processLoop w, s => s.setPc w (if (s.worker w).selfExit then .finished else .lock)
  | .processTake w, s => s.processTake w
  | .processWake w, s => s.setPc w .lock
  | .processSwitch w m, s => s.processSwitch w m
  | .invokeReturn w _, s => s.setPc w (if (s.worker w).selfExit then .finished else .loop)
  | .invokeThrow w _, s => s.setPc w .faulted

instance (l : ThreadLabel) (s : ThreadState) : Decidable (guard l s) := by
  cases l <;> simp only [guard] <;> infer_instance

end ThreadState

/-- The system of one `Thread` object and everything that calls it. -/
def threadLts (cfg : Config) : Lts ThreadState ThreadLabel where
  init := fun s => s = ThreadState.initial
  guard := ThreadState.guard
  update := ThreadState.update cfg

instance (cfg : Config) (l : ThreadLabel) (s : ThreadState) :
    Decidable ((threadLts cfg).guard l s) :=
  inferInstanceAs (Decidable (ThreadState.guard l s))

end AsyncSqlite
