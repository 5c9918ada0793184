import AsyncSqlite.Thread.Accounting

/-!
# AsyncSqlite.Port.Win32 — the win32 `Thread`

The worker thread of `port/os/win32/Thread.cpp`: two queues under `m_cs`, like
the stdlib port, but the exit message is pushed behind the messages of high
priority and the queues are never cleared.

Reading guide:

* A critical section of `m_cs` is one step; so is each unlocked read in front
  of it. A wait on a condition variable may end at any step.
* At most one `CreateThread` or `ExitThread` call is in progress (`control`).
  `ExitThread` is called by another thread than the worker, and it waits for
  the worker to end, so one `process` is enough for all lives of the object.
-/

namespace AsyncSqlite

/-- The `CreateThread` or `ExitThread` call in progress. -/
inductive Win32Control where
  | idle
  /-- `m_exit` is clear; about to create the thread -/
  | createSpawn
  /-- waiting for `m_hStartEvent` -/
  | createStart
  /-- `ExitThread` found a handle; about to enter `m_cs` -/
  | exitPush
  /-- in `WaitForSingleObject(m_hThread)` -/
  | exitWait
  | exitClose
deriving DecidableEq, Repr

structure Win32Thread where
  /-- `m_hThread != NULL` -/
  handle : Bool
  /-- `m_exit` -/
  exit : Bool
  highQueue : List ThreadMsg
  normalQueue : List ThreadMsg
  /-- the thread that runs `Process` -/
  process : WorkerPc
  control : Win32Control
  /-- the calls of `DispatchDelegate`, by message id -/
  dispatch : ℕ → DispatchPc
  /-- history: delegate messages in the order of their pushes -/
  accepted : List DelegateMsg
  /-- history: delegate messages in the order in which they left the queues -/
  popped : List DelegateMsg
  /-- history: delegate messages in the order in which their invokers were run -/
  invoked : List DelegateMsg

namespace Win32Thread

def initial : Win32Thread where
  handle := false
  exit := false
  highQueue := []
  normalQueue := []
  process := .notStarted
  control := .idle
  dispatch := fun _ => .idle
  accepted := []
  popped := []
  invoked := []

def queueSize (s : Win32Thread) : ℕ := s.highQueue.length + s.normalQueue.length

/-- Delegate messages in the queues. -/
def queued (s : Win32Thread) : List DelegateMsg := (s.highQueue ++ s.normalQueue).filterMap (·.data)

def setDispatch (s : Win32Thread) (id : ℕ) (pc : DispatchPc) : Win32Thread :=
  { s with dispatch := Function.update s.dispatch id pc }

/-! ## `DispatchDelegate` -/

def full (cfg : Config) (s : Win32Thread) : Prop :=
  0 < cfg.maxQueueSize ∧ cfg.maxQueueSize ≤ s.queueSize

instance (cfg : Config) (s : Win32Thread) : Decidable (full cfg s) :=
  inferInstanceAs (Decidable (_ ∧ _))

/-- Push on the queue of the message's priority and return true. -/
def accept (s : Win32Thread) (m : DelegateMsg) : Win32Thread :=
  { s.setDispatch m.id (.returned m true) with
    highQueue := if m.priority = .high then s.highQueue ++ [.delegate m] else s.highQueue
    normalQueue := if m.priority = .high then s.normalQueue else s.normalQueue ++ [.delegate m]
    accepted := s.accepted ++ [m] }

/-- The rest of the critical section once there is room. -/
def dispatchPush (s : Win32Thread) (m : DelegateMsg) : Win32Thread :=
  if s.exit then s.setDispatch m.id (.returned m false) else s.accept m

/-- The loop of the wait on `m_cvNotFull` tests its condition. -/
def dispatchWait (cfg : Config) (s : Win32Thread) (m : DelegateMsg) : Win32Thread :=
  if cfg.maxQueueSize ≤ s.queueSize ∧ s.exit = false then s.setDispatch m.id (.waiting m)
  else s.dispatchPush m

/-- The critical section of `DispatchDelegate`. -/
def dispatchLocked (cfg : Config) (s : Win32Thread) (m : DelegateMsg) : Win32Thread :=
  if full cfg s then
    match cfg.fullPolicy with
    | .drop => s.setDispatch m.id (.returned m false)
    | .fault => s.setDispatch m.id (.faulted m)
    | .timeout => s.dispatchWait cfg m
  else
    s.dispatchPush m

/-! ## `Process` -/

def take (s : Win32Thread) (m : ThreadMsg) : Win32Thread :=
  { s with process := .got m, popped := s.popped ++ m.data.toList }

/-- The critical section of the loop: sleep, leave, or pop the message of the
highest priority. `empty` is where a worker without a message goes. -/
def processTake (s : Win32Thread) (empty : WorkerPc) : Win32Thread :=
  match s.highQueue, s.normalQueue with
  | m :: rest, _ => { s.take m with highQueue := rest }
  | [], m :: rest => { s.take m with normalQueue := rest }
  | [], [] => { s with process := if s.exit then .finished else empty }

/-- The `switch` on `GetId()`. A delegate message without an invoker fails an
assertion. -/
def processSwitch (s : Win32Thread) (m : ThreadMsg) : Win32Thread :=
  match m.target with
  | some d => { s with process := .invoking d, invoked := s.invoked ++ [d] }
  | none => { s with process := if m.id = .exitThread then .finished else .faulted }

end Win32Thread

/-! ## The transition system -/

inductive Win32Label where
  | createThread
  | createSpawn
  | createStart
  | exitThread
  | exitPush
  | exitWait
  | exitClose
  | dispatchDelegate (m : DelegateMsg)
  | dispatchLocked (m : DelegateMsg)
  /-- the wait on `m_cvNotFull` ends -/
  | dispatchWake (m : DelegateMsg)
  /-- that wait runs into its timeout -/
  | dispatchTimeout (m : DelegateMsg)
  | processStart
  | processLoop
  | processTake
  /-- the wait on `m_cvNotEmpty` ends -/
  | processWake
  /-- that wait runs into its timeout -/
  | processTimeout
  | processSwitch (m : ThreadMsg)
  | invokeReturn (m : DelegateMsg)
  /-- `Invoke` is left by an exception: the handlers in `Process` fault -/
  | invokeThrow (m : DelegateMsg)
deriving DecidableEq, Repr

namespace Win32Thread

def guard : Win32Label → Win32Thread → Prop
  | .createThread, s => s.control = .idle
  | .createSpawn, s => s.control = .createSpawn
  | .createStart, s => s.control = .createStart ∧ s.process ≠ .starting
  | .exitThread, s => s.control = .idle
  | .exitPush, s => s.control = .exitPush
  | .exitWait, s => s.control = .exitWait ∧ s.process = .finished
  | .exitClose, s => s.control = .exitClose
  | .dispatchDelegate m, s => s.dispatch m.id = .idle
  | .dispatchLocked m, s => s.dispatch m.id = .checked m
  | .dispatchWake m, s => s.dispatch m.id = .waiting m
  | .dispatchTimeout m, s => s.dispatch m.id = .waiting m
  | .processStart, s => s.process = .starting
  | .processLoop, s => s.process = .loop
  | .processTake, s => s.process = .lock
  | .processWake, s => s.process = .asleep
  | .processTimeout, s => s.process = .asleep
  | .processSwitch m, s => s.process = .got m
  | .invokeReturn m, s => s.process = .invoking m
  | .invokeThrow m, s => s.process = .invoking m

def update (cfg : Config) : Win32Label → Win32Thread → Win32Thread
  | .createThread, s => if s.handle then s else { s with exit := false, control := .createSpawn }
  | .createSpawn, s => { s with handle := true, process := .starting, control := .createStart }
  | .createStart, s => { s with control := .idle }
  | .exitThread, s => if s.handle then { s with control := .exitPush } else s
  | .exitPush, s =>
    { s with exit := true, highQueue := s.highQueue ++ [.exit], control := .exitWait }
  | .exitWait, s => { s with control := .exitClose }
  | .exitClose, s => { s with handle := false, control := .idle }
  | .dispatchDelegate m, s =>
    s.setDispatch m.id (if s.exit ∨ s.handle = false then .returned m false else .checked m)
  | .dispatchLocked m, s => s.dispatchLocked cfg m
  | .dispatchWake m, s => s.dispatchWait cfg m
  | .dispatchTimeout m, s => s.setDispatch m.id (.returned m false)
  | .processStart, s => { s with process := .loop }
  | .processLoop, s => { s with process := .lock }
  | .processTake, s => s.processTake .asleep
  | .processWake, s => s.processTake .asleep
  | .processTimeout, s => s.processTake .loop
  | .processSwitch m, s => s.processSwitch m
  | .invokeReturn _, s => { s with process := .loop }
  | .invokeThrow _, s => { s with process := .faulted }

instance (l : Win32Label) (s : Win32Thread) : Decidable (guard l s) := by
  cases l <;> simp only [guard] <;> infer_instance

end Win32Thread

def win32Lts (cfg : Config) : Lts Win32Thread Win32Label where
  init := fun s => s = Win32Thread.initial
  guard := Win32Thread.guard
  update := Win32Thread.update cfg

instance (cfg : Config) (l : Win32Label) (s : Win32Thread) :
    Decidable ((win32Lts cfg).guard l s) :=
  inferInstanceAs (Decidable (Win32Thread.guard l s))

/-! ## What one step can do -/

namespace Win32Thread

variable {cfg : Config} {l : Win32Label}

/-- The worker moves on without touching the queues or running an invoker. -/
inductive ProcessMove (s : Win32Thread) : WorkerPc → Prop
  | start : s.process = .starting → ProcessMove s .loop
  | lock : s.process = .loop → ProcessMove s .lock
  | sleep : s.process = .lock ∨ s.process = .asleep → ProcessMove s .asleep
  | timeout : s.process = .asleep → ProcessMove s .loop
  | quit : s.process = .lock ∨ s.process = .asleep → s.highQueue = [] → s.normalQueue = [] →
      s.exit = true → ProcessMove s .finished
  | exitMsg (m : ThreadMsg) : s.process = .got m → m.target = none → m.id = .exitThread →
      ProcessMove s .finished
  | noInvoker (m : ThreadMsg) : s.process = .got m → m.target = none → m.id ≠ .exitThread →
      ProcessMove s .faulted
  | returned (m : DelegateMsg) : s.process = .invoking m → ProcessMove s .loop
  | threw (m : DelegateMsg) : s.process = .invoking m → ProcessMove s .faulted

/-- The outcomes of one step, with the branch of the source resolved. -/
inductive Effect (l : Win32Label) (s : Win32Thread) : Win32Thread → Prop
  | stutter : Effect l s s
  | beginCreate : s.control = .idle → s.handle = false →
      Effect l s { s with exit := false, control := .createSpawn }
  | spawn : s.control = .createSpawn →
      Effect l s { s with handle := true, process := .starting, control := .createStart }
  | started : s.control = .createStart → Effect l s { s with control := .idle }
  | beginExit : s.control = .idle → s.handle = true → Effect l s { s with control := .exitPush }
  | pushExit : l = .exitPush → s.control = .exitPush →
      Effect l s { s with
        exit := true
        highQueue := s.highQueue ++ [.exit]
        control := .exitWait }
  | waited : s.control = .exitWait → s.process = .finished →
      Effect l s { s with control := .exitClose }
  | close : s.control = .exitClose → Effect l s { s with handle := false, control := .idle }
  | dispatch (m : DelegateMsg) (pc : DispatchPc) : (∀ m' b, s.dispatch m.id ≠ .returned m' b) →
      Effect l s (s.setDispatch m.id pc)
  | accept (m : DelegateMsg) : (∀ m' b, s.dispatch m.id ≠ .returned m' b) → s.exit = false →
      Effect l s (s.accept m)
  | move (pc : WorkerPc) : ProcessMove s pc → Effect l s { s with process := pc }
  | popHigh (m : ThreadMsg) (rest : List ThreadMsg) : s.process = .lock ∨ s.process = .asleep →
      s.highQueue = m :: rest → Effect l s { s.take m with highQueue := rest }
  | popNormal (m : ThreadMsg) (rest : List ThreadMsg) : s.process = .lock ∨ s.process = .asleep →
      s.highQueue = [] → s.normalQueue = m :: rest →
      Effect l s { s.take m with normalQueue := rest }
  | invoke (m : ThreadMsg) (d : DelegateMsg) : s.process = .got m → m.target = some d →
      Effect l s { s with process := .invoking d, invoked := s.invoked ++ [d] }

theorem dispatchPush_effect {s : Win32Thread} {m : DelegateMsg}
    (hm : ∀ m' b, s.dispatch m.id ≠ .returned m' b) : Effect l s (s.dispatchPush m) := by
  unfold dispatchPush
  by_cases hexit : s.exit = true
  · rw [if_pos hexit]
    exact .dispatch m _ hm
  · rw [if_neg hexit]
    exact .accept m hm (by simpa using hexit)

theorem dispatchWait_effect {s : Win32Thread} {m : DelegateMsg}
    (hm : ∀ m' b, s.dispatch m.id ≠ .returned m' b) : Effect l s (s.dispatchWait cfg m) := by
  unfold dispatchWait
  split
  · exact .dispatch m _ hm
  · exact dispatchPush_effect hm

theorem dispatchLocked_effect {s : Win32Thread} {m : DelegateMsg}
    (hm : s.dispatch m.id = .checked m) : Effect l s (s.dispatchLocked cfg m) := by
  have hm' : ∀ m' b, s.dispatch m.id ≠ .returned m' b := by simp [hm]
  unfold dispatchLocked
  split
  · cases cfg.fullPolicy with
    | drop => exact .dispatch m _ hm'
    | fault => exact .dispatch m _ hm'
    | timeout => exact dispatchWait_effect hm'
  · exact dispatchPush_effect hm'

theorem processTake_effect {s : Win32Thread} {empty : WorkerPc}
    (hw : s.process = .lock ∨ s.process = .asleep) (hempty : ProcessMove s empty) :
    Effect l s (s.processTake empty) := by
  unfold processTake
  split
  · rename_i m rest hhigh
    exact .popHigh m rest hw hhigh
  · rename_i m rest hhigh hnormal
    exact .popNormal m rest hw hhigh hnormal
  · rename_i hhigh hnormal
    by_cases hexit : s.exit = true
    · rw [if_pos hexit]
      exact .move _ (.quit hw hhigh hnormal hexit)
    · rw [if_neg hexit]
      exact .move _ hempty

theorem processSwitch_effect {s : Win32Thread} {m : ThreadMsg} (hm : s.process = .got m) :
    Effect l s (s.processSwitch m) := by
  unfold processSwitch
  split
  · rename_i d hd
    exact .invoke m d hm hd
  · rename_i hd
    by_cases hid : m.id = .exitThread
    · rw [if_pos hid]
      exact .move _ (.exitMsg m hm hd hid)
    · rw [if_neg hid]
      exact .move _ (.noInvoker m hm hd hid)

/-- Every step has one of the listed outcomes. -/
theorem step_effect (cfg : Config) {l : Win32Label} {s : Win32Thread} (hg : guard l s) :
    Effect l s (update cfg l s) := by
  cases l with
  | createThread =>
    simp only [update]
    by_cases hh : s.handle = true
    · rw [if_pos hh]
      exact .stutter
    · rw [if_neg hh]
      exact .beginCreate hg (by simpa using hh)
  | createSpawn => exact .spawn hg
  | createStart => exact .started hg.1
  | exitThread =>
    simp only [update]
    by_cases hh : s.handle = true
    · rw [if_pos hh]
      exact .beginExit hg hh
    · rw [if_neg hh]
      exact .stutter
  | exitPush => exact .pushExit rfl hg
  | exitWait => exact .waited hg.1 hg.2
  | exitClose => exact .close hg
  | dispatchDelegate m =>
    have hidle : s.dispatch m.id = .idle := hg
    exact .dispatch m _ (by simp [hidle])
  | dispatchLocked m => exact dispatchLocked_effect hg
  | dispatchWake m =>
    have hwait : s.dispatch m.id = .waiting m := hg
    exact dispatchWait_effect (by simp [hwait])
  | dispatchTimeout m =>
    have hwait : s.dispatch m.id = .waiting m := hg
    exact .dispatch m _ (by simp [hwait])
  | processStart => exact .move _ (.start hg)
  | processLoop => exact .move _ (.lock hg)
  | processTake => exact processTake_effect (Or.inl hg) (.sleep (Or.inl hg))
  | processWake => exact processTake_effect (Or.inr hg) (.sleep (Or.inr hg))
  | processTimeout => exact processTake_effect (Or.inr hg) (.timeout hg)
  | processSwitch m => exact processSwitch_effect hg
  | invokeReturn m => exact .move _ (.returned m hg)
  | invokeThrow m => exact .move _ (.threw m hg)

end Win32Thread

end AsyncSqlite
