import Mathlib.Data.List.Sort
import AsyncSqlite.Port.FreeRtos
import AsyncSqlite.Port.Ledger

/-!
# AsyncSqlite.Port.RtosThread — the `Thread` of ThreadX, Zephyr and CMSIS-RTOS2

The worker thread of `port/os/threadx/Thread.cpp`, `port/os/zephyr/Thread.cpp` and
`port/os/cmsis-rtos2/Thread.cpp`, which are one program over three kernels. They
differ in the place that a message of high priority gets in the queue, in what
`DispatchDelegate` does without a queue, and in the exit semaphore.

Reading guide:

* `queue` is in the order of reception. A blocking put completes at some later
  step.
* The handles are plain members that `CreateThread` and `ExitThread` write: one of
  these calls at most is in progress, and no `DispatchDelegate` overlaps one.
* `ExitThread` may be called by the callback that the thread runs (`exitSelf`). The
  thread is not created again before this callback has returned.
* Allocations and the calls that create kernel objects succeed. Interrupt context,
  in which ThreadX does not wait for the semaphore, is left out.
-/

namespace AsyncSqlite

inductive RtosPort where
  | threadX
  | zephyr
  | cmsisRtos2
deriving DecidableEq, Repr

/-- Where a call of `ExitThread` by another thread is. -/
inductive ExitPc where
  | idle
  /-- `m_exit` is set; about to put the exit message -/
  | put
  /-- waits for `m_exitSem` -/
  | acquire
  | cleanUp
deriving DecidableEq, Repr

structure RtosThread where
  /-- `CreateThread` finds a thread -/
  created : Bool
  queue : Option (List ThreadMsg)
  /-- the count of `m_exitSem` -/
  exitSem : ℕ
  /-- `m_exit` -/
  exit : Bool
  /-- `selfExit` of `Run` -/
  selfExit : Bool
  /-- `m_watchdogTimeout` is positive -/
  watchdog : Bool
  task : RtosPc
  control : ExitPc
  /-- the calls of `DispatchDelegate`, by message id -/
  dispatch : ℕ → DispatchPc
  /-- history: delegate messages in the order in which they were put -/
  accepted : List DelegateMsg
  /-- history: delegate messages in the order in which they left the queue -/
  removed : List (DelegateMsg × Removal)
  /-- history: delegate messages in the order in which their invokers were run -/
  invoked : List DelegateMsg

namespace RtosPort

/-- How the kernel ranks the messages of a queue; Zephyr has no priorities. -/
def rank : RtosPort → Priority → ℕ
  | .zephyr, _ => 0
  | _, .normal => 0
  | _, .high => 1

/-- `tx_queue_front_send` or `tx_queue_send`, `k_msgq_put`, `osMessageQueuePut`. -/
def enqueue (p : RtosPort) (m : ThreadMsg) (q : List ThreadMsg) : List ThreadMsg :=
  match p with
  | .threadX => if m.getPriority = .high then m :: q else q ++ [m]
  | .zephyr => q ++ [m]
  | .cmsisRtos2 =>
    q.orderedInsert (fun a b => p.rank b.getPriority < p.rank a.getPriority) m

/-- The count after `m_exitSem` was given; ThreadX has no limit. -/
def give : RtosPort → ℕ → ℕ
  | .threadX, n => n + 1
  | _, n => min (n + 1) 1

/-- The count that `CreateThread` leaves; CMSIS-RTOS2 makes a new semaphore. -/
def semaphore : RtosPort → ℕ → ℕ
  | .cmsisRtos2, _ => 0
  | _, n => n

/-- `DispatchDelegate` without a queue fails on ThreadX; the other ports assert that
there is one. -/
def noQueue : RtosPort → DelegateMsg → DispatchPc
  | .threadX, m => .returned m false
  | _, m => .faulted m

end RtosPort

namespace RtosThread

def initial : RtosThread where
  created := false
  queue := none
  exitSem := 0
  exit := false
  selfExit := false
  watchdog := false
  task := .notCreated
  control := .idle
  dispatch := fun _ => .idle
  accepted := []
  removed := []
  invoked := []

/-- `m_queueSize`; 0 asks for `DEFAULT_QUEUE_SIZE`. -/
def queueSize (cfg : Config) : ℕ := if cfg.maxQueueSize = 0 then 20 else cfg.maxQueueSize

def messages (s : RtosThread) : List ThreadMsg := s.queue.getD []

/-- Delegate messages in the queue. -/
def queued (s : RtosThread) : List DelegateMsg := s.messages.filterMap (·.data)

/-- Delegate messages that `Run` received. -/
def popped (s : RtosThread) : List DelegateMsg := (s.removed.filter (·.2 = .popped)).map (·.1)

def hasSpace (cfg : Config) (s : RtosThread) : Prop := s.messages.length < queueSize cfg

instance (cfg : Config) (s : RtosThread) : Decidable (hasSpace cfg s) :=
  inferInstanceAs (Decidable (_ < _))

def setDispatch (s : RtosThread) (id : ℕ) (pc : DispatchPc) : RtosThread :=
  { s with dispatch := Function.update s.dispatch id pc }

/-- The put succeeds. -/
def accept (p : RtosPort) (s : RtosThread) (m : DelegateMsg) : RtosThread :=
  { s.setDispatch m.id (.returned m true) with
    queue := s.queue.map (p.enqueue (.delegate m)), accepted := s.accepted ++ [m] }

/-- The put fails, at once or after its timeout. -/
def reject (cfg : Config) (s : RtosThread) (m : DelegateMsg) : RtosThread :=
  s.setDispatch m.id (if cfg.fullPolicy = .fault then .faulted m else .returned m false)

/-- `DispatchDelegate`, up to a put that has to wait. -/
def dispatchDelegate (p : RtosPort) (cfg : Config) (s : RtosThread) (m : DelegateMsg) :
    RtosThread :=
  if s.queue.isNone then s.setDispatch m.id (p.noQueue m)
  else if hasSpace cfg s then s.accept p m
  else if cfg.fullPolicy = .timeout then s.setDispatch m.id (.waiting m)
  else s.reject cfg m

/-- `CreateThread`; `watchdog` says whether a timeout is passed, and whether it is
positive. `m_exit` is left as it is. -/
def createThread (p : RtosPort) (s : RtosThread) (watchdog : Option Bool) : RtosThread :=
  if s.created then s
  else
    { s with
      created := true
      queue := some []
      exitSem := p.semaphore s.exitSem
      selfExit := false
      watchdog := watchdog.getD s.watchdog
      task := .loop }

/-- `ExitThread` up to the exit message. -/
def exitThread (s : RtosThread) : RtosThread :=
  if s.queue.isNone then s else { s with exit := true, control := .put }

/-- The exit message is put. -/
def exitPut (p : RtosPort) (s : RtosThread) : RtosThread :=
  { s with queue := s.queue.map (p.enqueue .exit), control := .acquire }

/-- Drain and delete the queue, and forget the thread. -/
def close (s : RtosThread) : RtosThread :=
  { s with
    created := false
    queue := none
    removed := s.removed ++ s.queued.map (·, .cleared) }

/-- `ExitThread` in a callback. -/
def exitSelf (s : RtosThread) : RtosThread :=
  if s.queue.isNone then s else { s.close with exit := true, selfExit := true }

/-- The first message leaves the queue. -/
def get (s : RtosThread) : RtosThread :=
  match s.queue with
  | some (m :: rest) =>
    { s with
      task := .got m
      queue := some rest
      removed := s.removed ++ m.data.toList.map (·, .popped) }
  | _ => s

/-- `Run` behind a message that was received. -/
def processMsg (s : RtosThread) (m : ThreadMsg) : RtosThread :=
  match m.target with
  | some d => { s with task := .invoking d, invoked := s.invoked ++ [d] }
  | none => { s with task := if m.id = .exitThread then .leaving else .faulted }

end RtosThread

/-! ## The transition system -/

inductive RtosThreadLabel where
  | createThread (watchdog : Option Bool)
  | exitThread
  | exitPut
  | exitAcquire
  | exitCleanUp
  | exitSelf (m : DelegateMsg)
  | dispatchDelegate (m : DelegateMsg)
  /-- a put that was waiting finds room -/
  | dispatchPut (m : DelegateMsg)
  /-- a put that was waiting runs into its timeout -/
  | dispatchTimeout (m : DelegateMsg)
  /-- `while (!selfExit && !m_exit.load())` -/
  | runLoop
  | runGet
  /-- the wait for a message runs into `waitOption` -/
  | runTimeout
  | runMsg (m : ThreadMsg)
  | invokeReturn (m : DelegateMsg)
  /-- `Invoke` fails, or is left by an exception: `Run` faults -/
  | invokeThrow (m : DelegateMsg)
  /-- `m_exitSem` is given -/
  | runGive
deriving DecidableEq, Repr

namespace RtosThread

def guard (cfg : Config) : RtosThreadLabel → RtosThread → Prop
  | .createThread _, s =>
    s.control = .idle ∧ (s.created = true ∨ s.task = .notCreated ∨ s.task = .deleted)
  | .exitThread, s => s.control = .idle
  | .exitPut, s => s.control = .put ∧ s.hasSpace cfg
  | .exitAcquire, s => s.control = .acquire ∧ 0 < s.exitSem
  | .exitCleanUp, s => s.control = .cleanUp
  | .exitSelf m, s => s.control = .idle ∧ s.task = .invoking m
  | .dispatchDelegate m, s => s.control = .idle ∧ s.dispatch m.id = .idle
  | .dispatchPut m, s =>
    s.control = .idle ∧ s.dispatch m.id = .waiting m ∧ s.queue.isSome = true ∧ s.hasSpace cfg
  | .dispatchTimeout m, s => s.control = .idle ∧ s.dispatch m.id = .waiting m
  | .runLoop, s => s.task = .loop
  | .runGet, s => s.task = .receive ∧ s.messages ≠ []
  | .runTimeout, s => s.task = .receive ∧ s.messages = [] ∧ s.watchdog = true
  | .runMsg m, s => s.task = .got m
  | .invokeReturn m, s | .invokeThrow m, s => s.task = .invoking m
  | .runGive, s => s.task = .leaving

def update (p : RtosPort) (cfg : Config) : RtosThreadLabel → RtosThread → RtosThread
  | .createThread watchdog, s => s.createThread p watchdog
  | .exitThread, s => s.exitThread
  | .exitPut, s => s.exitPut p
  | .exitAcquire, s => { s with exitSem := s.exitSem - 1, control := .cleanUp }
  | .exitCleanUp, s => { s.close with control := .idle }
  | .exitSelf _, s => s.exitSelf
  | .dispatchDelegate m, s => s.dispatchDelegate p cfg m
  | .dispatchPut m, s => s.accept p m
  | .dispatchTimeout m, s => s.reject cfg m
  | .runLoop, s => { s with task := if s.exit then .leaving else .receive }
  | .runGet, s => s.get
  | .runTimeout, s => { s with task := .loop }
  | .runMsg m, s => s.processMsg m
  | .invokeReturn _, s => { s with task := if s.selfExit then .deleted else .loop }
  | .invokeThrow _, s => { s with task := .faulted }
  | .runGive, s => { s with task := .deleted, exitSem := p.give s.exitSem }

end RtosThread

open RtosThread

def rtosThreadLts (p : RtosPort) (cfg : Config) : Lts RtosThread RtosThreadLabel where
  init s := s = initial
  guard := guard cfg
  update := update p cfg

instance (p : RtosPort) (cfg : Config) (l : RtosThreadLabel) (s : RtosThread) :
    Decidable ((rtosThreadLts p cfg).guard l s) :=
  match l with
  | .createThread _ => inferInstanceAs (Decidable (_ ∧ (_ ∨ _ ∨ _)))
  | .exitThread | .exitCleanUp | .runLoop | .runMsg _ | .invokeReturn _ | .invokeThrow _
  | .runGive => inferInstanceAs (Decidable (_ = _))
  | .exitPut | .exitAcquire | .exitSelf _ | .dispatchDelegate _ | .dispatchTimeout _
  | .runGet => inferInstanceAs (Decidable (_ ∧ _))
  | .dispatchPut _ => inferInstanceAs (Decidable (_ ∧ _ ∧ _ ∧ _))
  | .runTimeout => inferInstanceAs (Decidable (_ ∧ _ ∧ _))

/-! ## What one step can do -/

namespace RtosThread

variable {p : RtosPort} {cfg : Config} {l : RtosThreadLabel} {s : RtosThread}

/-- The task moves on without touching the queue or running an invoker. -/
inductive TaskMove (s : RtosThread) : RtosPc → Prop
  | leave : s.task = .loop → s.exit = true → TaskMove s .leaving
  | receive : s.task = .loop → s.exit = false → TaskMove s .receive
  | timeout : s.task = .receive → TaskMove s .loop
  | exitMsg (m : ThreadMsg) : s.task = .got m → m.target = none → m.id = .exitThread →
      TaskMove s .leaving
  | noInvoker (m : ThreadMsg) : s.task = .got m → m.target = none → m.id ≠ .exitThread →
      TaskMove s .faulted
  | returned (m : DelegateMsg) : s.task = .invoking m → s.selfExit = false → TaskMove s .loop
  | returnedSelf (m : DelegateMsg) : s.task = .invoking m → s.selfExit = true → TaskMove s .deleted

/-- The outcomes of one step, with the branch of the source resolved. -/
inductive Effect (p : RtosPort) (cfg : Config) (l : RtosThreadLabel) (s : RtosThread) :
    RtosThread → Prop
  | stutter : Effect p cfg l s s
  | create (watchdog : Option Bool) : s.control = .idle → s.created = false →
      s.task = .notCreated ∨ s.task = .deleted →
      Effect p cfg l s { s with
        created := true
        queue := some []
        exitSem := p.semaphore s.exitSem
        selfExit := false
        watchdog := watchdog.getD s.watchdog
        task := .loop }
  | beginExit (q : List ThreadMsg) : l = .exitThread → s.control = .idle → s.queue = some q →
      Effect p cfg l s { s with exit := true, control := .put }
  | put : s.control = .put → s.hasSpace cfg → Effect p cfg l s (s.exitPut p)
  | acquire : s.control = .acquire → 0 < s.exitSem →
      Effect p cfg l s { s with exitSem := s.exitSem - 1, control := .cleanUp }
  | cleanUp : s.control = .cleanUp → Effect p cfg l s { s.close with control := .idle }
  | exitSelf (m : DelegateMsg) (q : List ThreadMsg) : s.control = .idle → s.task = .invoking m →
      s.queue = some q → Effect p cfg l s { s.close with exit := true, selfExit := true }
  | dispatch (m : DelegateMsg) (pc : DispatchPc) : s.control = .idle →
      s.dispatch m.id = .idle ∨ s.dispatch m.id = .waiting m → (∀ m', pc ≠ .returned m' true) →
      Effect p cfg l s (s.setDispatch m.id pc)
  | accept (m : DelegateMsg) (q : List ThreadMsg) : s.control = .idle →
      l = .dispatchDelegate m ∨ l = .dispatchPut m →
      s.dispatch m.id = .idle ∨ s.dispatch m.id = .waiting m → s.queue = some q →
      s.hasSpace cfg → Effect p cfg l s (s.accept p m)
  | move (pc : RtosPc) : TaskMove s pc → Effect p cfg l s { s with task := pc }
  | throw (m : DelegateMsg) : l = .invokeThrow m → s.task = .invoking m →
      Effect p cfg l s { s with task := .faulted }
  | get (m : ThreadMsg) (rest : List ThreadMsg) : s.task = .receive → s.queue = some (m :: rest) →
      Effect p cfg l s { s with
        task := .got m
        queue := some rest
        removed := s.removed ++ m.data.toList.map (·, .popped) }
  | invoke (m : ThreadMsg) (d : DelegateMsg) : s.task = .got m → m.target = some d →
      Effect p cfg l s { s with task := .invoking d, invoked := s.invoked ++ [d] }
  | give : s.task = .leaving →
      Effect p cfg l s { s with task := .deleted, exitSem := p.give s.exitSem }

theorem some_of_not_isNone (h : ¬ s.queue.isNone = true) : ∃ q, s.queue = some q :=
  Option.ne_none_iff_exists'.mp (by simpa using h)

theorem reject_effect {m : DelegateMsg} (hidle : s.control = .idle)
    (hm : s.dispatch m.id = .idle ∨ s.dispatch m.id = .waiting m) :
    Effect p cfg l s (s.reject cfg m) := by
  unfold reject
  split
  · exact .dispatch m _ hidle hm (by simp)
  · exact .dispatch m _ hidle hm (by simp)

theorem dispatchDelegate_effect {m : DelegateMsg} (hidle : s.control = .idle)
    (hl : l = .dispatchDelegate m) (hm : s.dispatch m.id = .idle) :
    Effect p cfg l s (s.dispatchDelegate p cfg m) := by
  unfold dispatchDelegate
  by_cases hnone : s.queue.isNone = true
  · rw [if_pos hnone]
    refine .dispatch m _ hidle (Or.inl hm) ?_
    cases p <;> simp [RtosPort.noQueue]
  rw [if_neg hnone]
  by_cases hspace : s.hasSpace cfg
  · rw [if_pos hspace]
    rcases some_of_not_isNone hnone with ⟨q, hq⟩
    exact .accept m q hidle (Or.inl hl) (Or.inl hm) hq hspace
  rw [if_neg hspace]
  split
  · exact .dispatch m _ hidle (Or.inl hm) (by simp)
  · exact reject_effect hidle (Or.inl hm)

theorem processMsg_effect {m : ThreadMsg} (hm : s.task = .got m) :
    Effect p cfg l s (s.processMsg m) := by
  unfold processMsg
  split
  · rename_i d hd
    exact .invoke m d hm hd
  · rename_i hd
    by_cases hid : m.id = .exitThread
    · rw [if_pos hid]
      exact .move _ (.exitMsg m hm hd hid)
    · rw [if_neg hid]
      exact .move _ (.noInvoker m hm hd hid)

/-- Every step has one of the listed outcomes. -/
theorem step_effect (p : RtosPort) (cfg : Config) {l : RtosThreadLabel} {s : RtosThread}
    (hg : guard cfg l s) : Effect p cfg l s (update p cfg l s) := by
  cases l with
  | createThread watchdog =>
    rcases hg with ⟨hidle, htask⟩
    dsimp only [update, createThread]
    by_cases hcreated : s.created = true
    · rw [if_pos hcreated]
      exact .stutter
    · rw [if_neg hcreated]
      exact .create watchdog hidle (by simpa using hcreated) (htask.resolve_left hcreated)
  | exitThread =>
    dsimp only [update, exitThread]
    by_cases hnone : s.queue.isNone = true
    · rw [if_pos hnone]
      exact .stutter
    · rw [if_neg hnone]
      rcases some_of_not_isNone hnone with ⟨q, hq⟩
      exact .beginExit q rfl hg hq
  | exitPut => exact .put hg.1 hg.2
  | exitAcquire => exact .acquire hg.1 hg.2
  | exitCleanUp => exact .cleanUp hg
  | exitSelf m =>
    dsimp only [update, exitSelf]
    by_cases hnone : s.queue.isNone = true
    · rw [if_pos hnone]
      exact .stutter
    · rw [if_neg hnone]
      rcases some_of_not_isNone hnone with ⟨q, hq⟩
      exact .exitSelf m q hg.1 hg.2 hq
  | dispatchDelegate m => exact dispatchDelegate_effect hg.1 rfl hg.2
  | dispatchPut m =>
    rcases Option.isSome_iff_exists.mp hg.2.2.1 with ⟨q, hq⟩
    exact .accept m q hg.1 (Or.inr rfl) (Or.inr hg.2.1) hq hg.2.2.2
  | dispatchTimeout m => exact reject_effect hg.1 (Or.inr hg.2)
  | runLoop =>
    dsimp only [update]
    by_cases hexit : s.exit = true
    · rw [if_pos hexit]
      exact .move _ (.leave hg hexit)
    · rw [if_neg hexit]
      exact .move _ (.receive hg (by simpa using hexit))
  | runGet =>
    rcases hg with ⟨htask, hne⟩
    dsimp only [update, get]
    split
    · rename_i m rest hq
      exact .get m rest htask hq
    · exact .stutter
  | runTimeout => exact .move _ (.timeout hg.1)
  | runMsg m => exact processMsg_effect hg
  | invokeReturn m =>
    dsimp only [update]
    by_cases hself : s.selfExit = true
    · rw [if_pos hself]
      exact .move _ (.returnedSelf m hg hself)
    · rw [if_neg hself]
      exact .move _ (.returned m hg (by simpa using hself))
  | invokeThrow m => exact .throw m rfl hg
  | runGive => exact .give hg

end RtosThread

end AsyncSqlite
