import AsyncSqlite.Thread.Model

/-!
# AsyncSqlite.Thread.Watchdog — the heartbeat of a stdlib `Thread`

The watchdog of `port/os/stdlib/Thread.cpp` under a clock: the worker stores
`m_lastAliveTime` at the loop head and when it wakes up, sleeps for at most a
tenth of the timeout that it loaded, and `WatchdogCheck` compares the age of
the last store with `m_watchdogTimeout`.

Reading guide:

* The threads that are checked share nothing but the registry, so one object
  with its registry flag stands for each of them. Its destructor, which takes
  it out of the registry, ends its life and is left out.
* A loop iteration, from the heartbeat at the loop head to the sleep or the
  popped message, is one step, and so is the wakeup. A handler counts from the
  pop that stores the heartbeat.
* `CreateThread` and `WatchdogCheck` are taken apart: each reading of the clock
  and each access to an atomic is a step. `WatchdogCheckAll` holds the lock of
  the registry, so an object is checked by one caller at a time and not
  registered meanwhile. `ThreadCheck` stores a reading from within the call.
* Of the queues only their lengths matter here. `ExitThread` is called by
  another thread, or by the handler that the worker runs; in that case the
  object is created again after the handler has returned.
* The clock advances in `tick`. A runnable worker is delayed by less than half
  of the watchdog timeout: a tick that would exceed it is not taken.
* Atomics are not initialised by the constructor, so `m_lastAliveTime` and
  `m_watchdogTimeout` begin with any values.
-/

namespace AsyncSqlite

/-- Where the worker is, with the time since when it is runnable there. -/
inductive WatchPc where
  | notStarted
  | starting (since : ℕ)
  /-- at the loop head, behind a heartbeat or the start -/
  | loop (since : ℕ)
  /-- in the wait, with its deadline if it is a timed one -/
  | asleep (deadline : Option ℕ)
  /-- in a handler that was popped, or last called `ThreadCheck`, at `since` -/
  | handler (since : ℕ) (selfExit : Bool)
  /-- at the loop head, the handler has returned -/
  | returned (since : ℕ)
  | finished
deriving DecidableEq, Repr

/-- The `CreateThread` or `ExitThread` call in progress; `timeout` is the
argument of `CreateThread`. -/
inductive WatchControl where
  | idle
  | createSpawn (timeout : Option ℕ)
  /-- in `m_threadStartFuture->get()` -/
  | createStart (timeout : Option ℕ)
  /-- about to read the clock for `m_lastAliveTime` -/
  | createAlive (timeout : Option ℕ)
  /-- about to store the reading -/
  | createStore (timeout : Option ℕ) (now : ℕ)
  /-- about to store `m_watchdogTimeout` -/
  | createTimeout (timeout : ℕ)
  | createRegister
  | exitPush
  | exitJoin
  | exitReset
deriving DecidableEq, Repr

/-- What the `WatchdogCheck` in progress has loaded. -/
inductive WatchCheck where
  | idle
  /-- the clock -/
  | clock (now : ℕ)
  /-- and `m_lastAliveTime` -/
  | alive (now lastAlive : ℕ)
  /-- and `m_watchdogTimeout` -/
  | timeout (now lastAlive timeout : ℕ)
deriving DecidableEq, Repr

namespace WatchCheck

def isClock : WatchCheck → Bool
  | .clock _ => true
  | _ => false

def isAlive : WatchCheck → Bool
  | .alive _ _ => true
  | _ => false

def isTimeout : WatchCheck → Bool
  | .timeout _ _ _ => true
  | _ => false

end WatchCheck

structure WatchedThread where
  /-- the clock -/
  now : ℕ
  /-- `m_lastAliveTime` -/
  lastAlive : ℕ
  /-- `m_watchdogTimeout` -/
  timeout : ℕ
  /-- the object is in the watchdog list -/
  registered : Bool
  /-- `m_thread` is engaged -/
  thread : Bool
  /-- `m_exit` -/
  exit : Bool
  /-- delegate messages in the queues -/
  messages : ℕ
  /-- the exit message is queued, behind them -/
  exitMsg : Bool
  worker : WatchPc
  control : WatchControl
  check : WatchCheck
  /-- the watchdog timeout of the present life, published or not -/
  period : ℕ
  /-- `WatchdogHandler` was called, and does not return -/
  alarmed : Bool

namespace WatchedThread

def initial (lastAlive timeout : ℕ) : WatchedThread where
  now := 0
  lastAlive := lastAlive
  timeout := timeout
  registered := false
  thread := false
  exit := false
  messages := 0
  exitMsg := false
  worker := .notStarted
  control := .idle
  check := .idle
  period := timeout
  alarmed := false

/-- `m_lastAliveTime.store(Timer::GetNow())`. -/
def heartbeat (s : WatchedThread) : WatchedThread := { s with lastAlive := s.now }

/-- The critical section of `Process` once the wait is over or not entered: pop
a message, leave, or go where a worker without a message goes. -/
def take (s : WatchedThread) (empty : WatchPc) : WatchedThread :=
  if 0 < s.messages then
    { s with messages := s.messages - 1, worker := .handler s.now false }
  else if s.exitMsg then { s with exitMsg := false, worker := .finished }
  else { s with worker := if s.exit then .finished else empty }

/-- The wait that the loaded timeout leads to. -/
def deadline (s : WatchedThread) : Option ℕ :=
  if 0 < s.timeout then some (s.now + s.timeout / 10) else none

/-- A loop iteration. -/
def iterate (s : WatchedThread) : WatchedThread := s.heartbeat.take (.asleep s.deadline)

/-- The wakeup; a worker that wakes up for nothing goes to the loop head. -/
def wake (s : WatchedThread) : WatchedThread := s.heartbeat.take (.loop s.now)

/-- The wait ends: its deadline has passed or its predicate holds. -/
def mayWake (s : WatchedThread) : Prop :=
  match s.worker with
  | .asleep d => d.any (· ≤ s.now) = true ∨ 0 < s.messages ∨ s.exitMsg = true ∨ s.exit = true
  | _ => False

instance (s : WatchedThread) : Decidable s.mayWake := by
  unfold mayWake
  split <;> infer_instance

/-- No worker runs. -/
def stopped (s : WatchedThread) : Bool :=
  match s.worker with
  | .notStarted | .finished => true
  | _ => false

def atStart (s : WatchedThread) : Bool :=
  match s.worker with
  | .starting _ => true
  | _ => false

def atLoop (s : WatchedThread) : Bool :=
  match s.worker with
  | .loop _ | .returned _ => true
  | _ => false

def inHandler (s : WatchedThread) : Bool :=
  match s.worker with
  | .handler _ _ => true
  | _ => false

/-- The test in `WatchdogCheck`. -/
def overdue (now lastAlive timeout : ℕ) : Prop := 0 < timeout ∧ timeout < now - lastAlive

instance (now lastAlive timeout : ℕ) : Decidable (overdue now lastAlive timeout) :=
  inferInstanceAs (Decidable (0 < timeout ∧ timeout < now - lastAlive))

/-- The load of `m_lastAliveTime`. -/
def watchdogAlive (s : WatchedThread) : WatchedThread :=
  match s.check with
  | .clock now => { s with check := .alive now s.lastAlive }
  | _ => s

/-- The load of `m_watchdogTimeout`. -/
def watchdogTimeout (s : WatchedThread) : WatchedThread :=
  match s.check with
  | .alive now lastAlive => { s with check := .timeout now lastAlive s.timeout }
  | _ => s

/-- The test, and the call of `WatchdogHandler`. -/
def watchdogTest (s : WatchedThread) : WatchedThread :=
  match s.check with
  | .timeout now lastAlive timeout =>
    if overdue now lastAlive timeout then { s with check := .idle, alarmed := true }
    else { s with check := .idle }
  | _ => s

/-- The `ThreadCheck` of the handler has read the clock at `t`. -/
def mayCheck (s : WatchedThread) (t : ℕ) : Prop :=
  match s.worker with
  | .handler since _ => since ≤ t ∧ t ≤ s.now
  | _ => False

instance (s : WatchedThread) (t : ℕ) : Decidable (s.mayCheck t) := by
  unfold mayCheck
  split <;> infer_instance

/-- At time `t` no runnable step of the worker has been delayed by half of the
watchdog timeout. -/
def prompt (s : WatchedThread) (t : ℕ) : Prop :=
  match s.worker with
  | .starting r | .loop r | .returned r => s.period = 0 ∨ 2 * t < 2 * r + s.period
  | .asleep (some d) => s.period = 0 ∨ 2 * t < 2 * d + s.period
  | _ => True

instance (s : WatchedThread) (t : ℕ) : Decidable (s.prompt t) := by
  unfold prompt
  split <;> infer_instance

end WatchedThread

/-! ## The transition system -/

inductive WatchLabel where
  | createThread (timeout : Option ℕ)
  | createSpawn (timeout : Option ℕ)
  | createStart (timeout : Option ℕ)
  | createAlive (timeout : Option ℕ)
  | createStore (timeout : Option ℕ) (now : ℕ)
  | createTimeout (timeout : ℕ)
  | createRegister
  | exitThread
  | exitPush
  | exitJoin
  | exitReset
  /-- the handler calls `ExitThread` on its own thread -/
  | selfExit
  /-- an accepted `DispatchDelegate` -/
  | dispatch
  | processStart
  | iterate
  | wake
  | handlerReturn
  | threadCheck (t : ℕ)
  /-- `WatchdogCheck` begins with a reading of the clock -/
  | watchdogCheck
  | watchdogAlive
  | watchdogTimeout
  | watchdogTest
  | tick (t : ℕ)
deriving DecidableEq, Repr

namespace WatchedThread

/-- `WatchdogHandler` ends the program. -/
def guard (l : WatchLabel) (s : WatchedThread) : Prop :=
  s.alarmed = false ∧ match l with
  | .createThread _ => s.control = .idle ∧ (s.thread = true ∨ s.stopped = true)
  | .createSpawn T => s.control = .createSpawn T
  | .createStart T => s.control = .createStart T ∧ s.atStart = false
  | .createAlive T => s.control = .createAlive T
  | .createStore T n => s.control = .createStore T n
  | .createTimeout T => s.control = .createTimeout T
  | .createRegister => s.control = .createRegister ∧ s.check = .idle
  | .exitThread => s.control = .idle
  | .exitPush => s.control = .exitPush
  | .exitJoin => s.control = .exitJoin ∧ s.worker = .finished
  | .exitReset => s.control = .exitReset
  | .selfExit => s.control = .idle ∧ s.thread = true ∧ s.inHandler = true
  | .dispatch => s.exit = false
  | .processStart => s.atStart = true
  | .iterate => s.atLoop = true
  | .wake => s.mayWake
  | .handlerReturn => s.inHandler = true
  | .threadCheck t => s.mayCheck t
  | .watchdogCheck => s.registered = true ∧ s.check = .idle
  | .watchdogAlive => s.check.isClock = true
  | .watchdogTimeout => s.check.isAlive = true
  | .watchdogTest => s.check.isTimeout = true
  | .tick t => s.now ≤ t ∧ s.prompt t

def update : WatchLabel → WatchedThread → WatchedThread
  | .createThread T, s =>
    if s.thread then s
    else { s with exit := false, control := .createSpawn T, period := T.getD s.timeout }
  | .createSpawn T, s =>
    { s with thread := true, worker := .starting s.now, control := .createStart T }
  | .createStart T, s => { s with control := .createAlive T }
  | .createAlive T, s => { s with control := .createStore T s.now }
  | .createStore (some T) n, s => { s with lastAlive := n, control := .createTimeout T }
  | .createStore none n, s => { s with lastAlive := n, control := .idle }
  | .createTimeout T, s => { s with timeout := T, control := .createRegister }
  | .createRegister, s => { s with registered := true, control := .idle }
  | .exitThread, s => if s.thread then { s with control := .exitPush } else s
  | .exitPush, s => { s with exit := true, exitMsg := true, control := .exitJoin }
  | .exitJoin, s => { s with control := .exitReset }
  | .exitReset, s =>
    { s with thread := false, messages := 0, exitMsg := false, control := .idle }
  | .selfExit, s =>
    match s.worker with
    | .handler r _ =>
      { s with
        exit := true
        thread := false
        messages := 0
        exitMsg := false
        worker := .handler r true }
    | _ => s
  | .dispatch, s => { s with messages := s.messages + 1 }
  | .processStart, s => { s with worker := .loop s.now }
  | .iterate, s => s.iterate
  | .wake, s => s.wake
  | .handlerReturn, s =>
    match s.worker with
    | .handler _ true => { s with worker := .finished }
    | _ => { s with worker := .returned s.now }
  | .threadCheck t, s =>
    match s.worker with
    | .handler _ b => { s with lastAlive := t, worker := .handler t b }
    | _ => s
  | .watchdogCheck, s => { s with check := .clock s.now }
  | .watchdogAlive, s => s.watchdogAlive
  | .watchdogTimeout, s => s.watchdogTimeout
  | .watchdogTest, s => s.watchdogTest
  | .tick t, s => { s with now := t }

instance (l : WatchLabel) (s : WatchedThread) : Decidable (guard l s) := by
  cases l <;> simp only [guard] <;> infer_instance

end WatchedThread

/-- One `Thread` object and the watchdog, from any memory. -/
def watchdogLts : Lts WatchedThread WatchLabel where
  init := fun s => ∃ lastAlive timeout, s = WatchedThread.initial lastAlive timeout
  guard := WatchedThread.guard
  update := WatchedThread.update

instance (l : WatchLabel) (s : WatchedThread) : Decidable (watchdogLts.guard l s) :=
  inferInstanceAs (Decidable (WatchedThread.guard l s))

end AsyncSqlite
