import AsyncSqlite.Thread.Model

/-!
# AsyncSqlite.Port.FreeRtos — the FreeRTOS `Thread`

The worker thread of `port/os/freertos/Thread.cpp`: one FreeRTOS queue, to
which a message of high priority is sent at the front and any other at the
back, and a task whose loop tests `m_exit` before every receive.

Reading guide:

* `xQueueSendToBack` appends, `xQueueSendToFront` prepends and `xQueueReceive`
  takes the first entry. A blocking send completes at some later step.
* `m_queue`, `m_thread` and `m_exitSem` are plain pointers that `CreateThread`
  and `ExitThread` write, so at most one of these calls is in progress
  (`control`), and no `DispatchDelegate` overlaps `ExitThread`, which deletes
  the queue. `ExitThread` is called by a task other than the worker's.
* Allocations succeed, and so do `xQueueCreate` and `xTaskCreate`.
-/

namespace AsyncSqlite

/-- Where the task's `Run` is. -/
inductive RtosPc where
  | notCreated
  /-- at `while (!selfExit && !m_exit.load())` -/
  | loop
  /-- in `xQueueReceive` -/
  | receive
  | got (msg : ThreadMsg)
  /-- in `invoker->Invoke(delegateMsg)` -/
  | invoking (m : DelegateMsg)
  | faulted
  /-- behind the loop, about to give `m_exitSem` -/
  | leaving
  | deleted
deriving DecidableEq, Repr

/-- The `CreateThread` or `ExitThread` call in progress. -/
inductive RtosControl where
  | idle
  /-- the queue exists; about to create the task -/
  | createTask
  /-- `m_exit` is set; about to send the exit message -/
  | exitSend
  /-- in `xSemaphoreTake(m_exitSem)` -/
  | exitTake
  | exitDrain
deriving DecidableEq, Repr

structure FreeRtosThread where
  /-- `m_thread != nullptr` -/
  thread : Bool
  /-- `m_queue` -/
  queue : Option (List ThreadMsg)
  /-- `m_exitSem`, and whether it has been given -/
  exitSem : Option Bool
  /-- `m_exit` -/
  exit : Bool
  task : RtosPc
  control : RtosControl
  /-- the calls of `DispatchDelegate`, by message id -/
  dispatch : ℕ → DispatchPc
  /-- history: delegate messages in the order of their sends -/
  accepted : List DelegateMsg
  /-- history: delegate messages in the order in which they left the queue -/
  removed : List (DelegateMsg × Removal)
  /-- history: delegate messages in the order in which their invokers were run -/
  invoked : List DelegateMsg

namespace FreeRtosThread

def initial : FreeRtosThread where
  thread := false
  queue := none
  exitSem := none
  exit := false
  task := .notCreated
  control := .idle
  dispatch := fun _ => .idle
  accepted := []
  removed := []
  invoked := []

/-- `m_queueSize`; 0 asks for `DEFAULT_QUEUE_SIZE`. -/
def queueSize (cfg : Config) : ℕ := if cfg.maxQueueSize = 0 then 20 else cfg.maxQueueSize

/-- What the queue holds; nothing while there is none. -/
def messages (s : FreeRtosThread) : List ThreadMsg := s.queue.getD []

/-- Delegate messages in the queue. -/
def queued (s : FreeRtosThread) : List DelegateMsg := s.messages.filterMap (·.data)

/-- Delegate messages that `Run` received. -/
def popped (s : FreeRtosThread) : List DelegateMsg :=
  (s.removed.filter (·.2 = .popped)).map (·.1)

/-- Delegate messages that `ExitThread` deleted. -/
def cleared (s : FreeRtosThread) : List DelegateMsg :=
  (s.removed.filter (·.2 = .cleared)).map (·.1)

/-- A send would not have to wait. -/
def hasSpace (cfg : Config) (s : FreeRtosThread) : Prop := s.messages.length < queueSize cfg

instance (cfg : Config) (s : FreeRtosThread) : Decidable (hasSpace cfg s) :=
  inferInstanceAs (Decidable (_ < _))

def setDispatch (s : FreeRtosThread) (id : ℕ) (pc : DispatchPc) : FreeRtosThread :=
  { s with dispatch := Function.update s.dispatch id pc }

/-- `xQueueSendToFront` for high priority, else `xQueueSendToBack`. -/
def send (m : DelegateMsg) (q : List ThreadMsg) : List ThreadMsg :=
  if m.priority = .high then .delegate m :: q else q ++ [.delegate m]

/-- The send succeeds. -/
def accept (s : FreeRtosThread) (m : DelegateMsg) : FreeRtosThread :=
  { s.setDispatch m.id (.returned m true) with
    queue := s.queue.map (send m), accepted := s.accepted ++ [m] }

/-- The send fails, at once or after its timeout. -/
def reject (cfg : Config) (s : FreeRtosThread) (m : DelegateMsg) : FreeRtosThread :=
  s.setDispatch m.id (if cfg.fullPolicy = .fault then .faulted m else .returned m false)

/-- `DispatchDelegate`, up to a send that has to wait. -/
def dispatchDelegate (cfg : Config) (s : FreeRtosThread) (m : DelegateMsg) : FreeRtosThread :=
  if s.queue.isNone then s.setDispatch m.id (.returned m false)
  else if hasSpace cfg s then s.accept m
  else if cfg.fullPolicy = .timeout then s.setDispatch m.id (.waiting m)
  else s.reject cfg m

/-- `CreateThread` up to the task. -/
def createThread (s : FreeRtosThread) : FreeRtosThread :=
  if s.thread then s
  else
    { s with
      exitSem := some (s.exitSem.getD false)
      queue := some s.messages
      control := .createTask }

/-- `xTaskCreate`. `m_exit` is left as it is. -/
def createTask (s : FreeRtosThread) : FreeRtosThread :=
  { s with thread := true, task := .loop, control := .idle }

/-- `ExitThread` up to the exit message. -/
def exitThread (s : FreeRtosThread) : FreeRtosThread :=
  if s.queue.isNone then s else { s with exit := true, control := .exitSend }

/-- `xQueueSend` of the exit message. -/
def exitSend (s : FreeRtosThread) : FreeRtosThread :=
  { s with queue := s.queue.map (· ++ [.exit]), control := .exitTake }

/-- Drain and delete the queue. -/
def exitDrain (s : FreeRtosThread) : FreeRtosThread :=
  { s with
    removed := s.removed ++ s.queued.map (·, .cleared)
    queue := none
    thread := false
    control := .idle }

/-- `xQueueReceive` takes the first entry. -/
def receive (s : FreeRtosThread) : FreeRtosThread :=
  match s.queue with
  | some (m :: rest) =>
    { s with
      task := .got m
      queue := some rest
      removed := s.removed ++ m.data.toList.map (·, .popped) }
  | _ => s

/-- The loop behind a receive. A delegate message without an invoker fails an
assertion, and the exit message leaves the loop. -/
def processMsg (s : FreeRtosThread) (m : ThreadMsg) : FreeRtosThread :=
  match m.target with
  | some d => { s with task := .invoking d, invoked := s.invoked ++ [d] }
  | none => { s with task := if m.id = .exitThread then .leaving else .faulted }

/-- `ExitThread` has begun and not returned. -/
def exiting (s : FreeRtosThread) : Prop :=
  s.control = .exitSend ∨ s.control = .exitTake ∨ s.control = .exitDrain

instance (s : FreeRtosThread) : Decidable s.exiting := inferInstanceAs (Decidable (_ ∨ _))

end FreeRtosThread

/-! ## The transition system -/

inductive RtosLabel where
  | createThread
  | createTask
  | exitThread
  | exitSend
  | exitTake
  | exitDrain
  | dispatchDelegate (m : DelegateMsg)
  /-- a send that was waiting finds room -/
  | dispatchSend (m : DelegateMsg)
  /-- a send that was waiting runs into its timeout -/
  | dispatchTimeout (m : DelegateMsg)
  | runLoop
  | runReceive
  /-- `xQueueReceive` runs into `waitTicks` -/
  | runTimeout
  | runMsg (m : ThreadMsg)
  | invokeReturn (m : DelegateMsg)
  /-- `Invoke` is left by an exception: the handlers in `Run` fault -/
  | invokeThrow (m : DelegateMsg)
  /-- `xSemaphoreGive(m_exitSem)`, and the end of the task -/
  | runGive
deriving DecidableEq, Repr

namespace FreeRtosThread

def guard (cfg : Config) : RtosLabel → FreeRtosThread → Prop
  | .createThread, s => s.control = .idle
  | .createTask, s => s.control = .createTask
  | .exitThread, s => s.control = .idle
  | .exitSend, s => s.control = .exitSend ∧ s.hasSpace cfg
  | .exitTake, s => s.control = .exitTake ∧ s.exitSem = some true
  | .exitDrain, s => s.control = .exitDrain
  | .dispatchDelegate m, s => ¬ s.exiting ∧ s.dispatch m.id = .idle
  | .dispatchSend m, s =>
    ¬ s.exiting ∧ s.dispatch m.id = .waiting m ∧ s.queue.isSome = true ∧ s.hasSpace cfg
  | .dispatchTimeout m, s => ¬ s.exiting ∧ s.dispatch m.id = .waiting m
  | .runLoop, s => s.task = .loop
  | .runReceive, s => s.task = .receive ∧ s.messages ≠ []
  | .runTimeout, s => s.task = .receive ∧ s.messages = []
  | .runMsg m, s => s.task = .got m
  | .invokeReturn m, s => s.task = .invoking m
  | .invokeThrow m, s => s.task = .invoking m
  | .runGive, s => s.task = .leaving

def update (cfg : Config) : RtosLabel → FreeRtosThread → FreeRtosThread
  | .createThread, s => s.createThread
  | .createTask, s => s.createTask
  | .exitThread, s => s.exitThread
  | .exitSend, s => s.exitSend
  | .exitTake, s => { s with exitSem := some false, control := .exitDrain }
  | .exitDrain, s => s.exitDrain
  | .dispatchDelegate m, s => s.dispatchDelegate cfg m
  | .dispatchSend m, s => s.accept m
  | .dispatchTimeout m, s => s.reject cfg m
  | .runLoop, s => { s with task := if s.exit then .leaving else .receive }
  | .runReceive, s => s.receive
  | .runTimeout, s => { s with task := .loop }
  | .runMsg m, s => s.processMsg m
  | .invokeReturn _, s => { s with task := .loop }
  | .invokeThrow _, s => { s with task := .faulted }
  | .runGive, s => { s with task := .deleted, exitSem := s.exitSem.map fun _ => true }

instance (cfg : Config) (l : RtosLabel) (s : FreeRtosThread) : Decidable (guard cfg l s) := by
  cases l <;> simp only [guard] <;> infer_instance

end FreeRtosThread

def freeRtosLts (cfg : Config) : Lts FreeRtosThread RtosLabel where
  init := fun s => s = FreeRtosThread.initial
  guard := FreeRtosThread.guard cfg
  update := FreeRtosThread.update cfg

instance (cfg : Config) (l : RtosLabel) (s : FreeRtosThread) :
    Decidable ((freeRtosLts cfg).guard l s) :=
  inferInstanceAs (Decidable (FreeRtosThread.guard cfg l s))

/-! ## What one step can do -/

namespace FreeRtosThread

variable {cfg : Config} {l : RtosLabel}

/-- The task moves on without touching the queue or running an invoker. -/
inductive TaskMove (s : FreeRtosThread) : RtosPc → Prop
  | leave : s.task = .loop → s.exit = true → TaskMove s .leaving
  | receive : s.task = .loop → s.exit = false → TaskMove s .receive
  | timeout : s.task = .receive → s.messages = [] → TaskMove s .loop
  | exitMsg (m : ThreadMsg) : s.task = .got m → m.target = none → m.id = .exitThread →
      TaskMove s .leaving
  | noInvoker (m : ThreadMsg) : s.task = .got m → m.target = none → m.id ≠ .exitThread →
      TaskMove s .faulted
  | returned (m : DelegateMsg) : s.task = .invoking m → TaskMove s .loop
  | threw (m : DelegateMsg) : s.task = .invoking m → TaskMove s .faulted

/-- The outcomes of one step, with the branch of the source resolved. -/
inductive Effect (cfg : Config) (l : RtosLabel) (s : FreeRtosThread) : FreeRtosThread → Prop
  | stutter : Effect cfg l s s
  | create : s.control = .idle → s.thread = false →
      Effect cfg l s { s with
        exitSem := some (s.exitSem.getD false)
        queue := some s.messages
        control := .createTask }
  | task : s.control = .createTask → Effect cfg l s s.createTask
  | beginExit (q : List ThreadMsg) : l = .exitThread → s.control = .idle → s.queue = some q →
      Effect cfg l s { s with exit := true, control := .exitSend }
  | sendExit : s.control = .exitSend → Effect cfg l s s.exitSend
  | takeSem : s.control = .exitTake → s.exitSem = some true →
      Effect cfg l s { s with exitSem := some false, control := .exitDrain }
  | drain : s.control = .exitDrain → Effect cfg l s s.exitDrain
  | dispatch (m : DelegateMsg) (pc : DispatchPc) : ¬ s.exiting →
      s.dispatch m.id = .idle ∨ s.dispatch m.id = .waiting m → (∀ m', pc ≠ .returned m' true) →
      pc ≠ .idle → Effect cfg l s (s.setDispatch m.id pc)
  | accept (m : DelegateMsg) (q : List ThreadMsg) : ¬ s.exiting →
      l = .dispatchDelegate m ∨ l = .dispatchSend m →
      s.dispatch m.id = .idle ∨ s.dispatch m.id = .waiting m → s.queue = some q →
      s.hasSpace cfg → Effect cfg l s (s.accept m)
  | move (pc : RtosPc) : TaskMove s pc → Effect cfg l s { s with task := pc }
  | pop (m : ThreadMsg) (rest : List ThreadMsg) : s.task = .receive → s.queue = some (m :: rest) →
      Effect cfg l s { s with
        task := .got m
        queue := some rest
        removed := s.removed ++ m.data.toList.map (·, .popped) }
  | invoke (m : ThreadMsg) (d : DelegateMsg) : s.task = .got m → m.target = some d →
      Effect cfg l s { s with task := .invoking d, invoked := s.invoked ++ [d] }
  | give : s.task = .leaving →
      Effect cfg l s { s with task := .deleted, exitSem := s.exitSem.map fun _ => true }

theorem reject_effect {s : FreeRtosThread} {m : DelegateMsg} (hex : ¬ s.exiting)
    (hm : s.dispatch m.id = .idle ∨ s.dispatch m.id = .waiting m) :
    Effect cfg l s (s.reject cfg m) := by
  unfold reject
  split
  · exact .dispatch m _ hex hm (by simp) (by simp)
  · exact .dispatch m _ hex hm (by simp) (by simp)

theorem dispatchDelegate_effect {s : FreeRtosThread} {m : DelegateMsg} (hex : ¬ s.exiting)
    (hl : l = .dispatchDelegate m) (hm : s.dispatch m.id = .idle) :
    Effect cfg l s (s.dispatchDelegate cfg m) := by
  unfold dispatchDelegate
  by_cases hnone : s.queue.isNone = true
  · rw [if_pos hnone]
    exact .dispatch m _ hex (Or.inl hm) (by simp) (by simp)
  rw [if_neg hnone]
  by_cases hspace : s.hasSpace cfg
  · rw [if_pos hspace]
    rcases Option.ne_none_iff_exists'.mp (by simpa using hnone) with ⟨q, hq⟩
    exact .accept m q hex (Or.inl hl) (Or.inl hm) hq hspace
  rw [if_neg hspace]
  split
  · exact .dispatch m _ hex (Or.inl hm) (by simp) (by simp)
  · exact reject_effect hex (Or.inl hm)

theorem processMsg_effect {s : FreeRtosThread} {m : ThreadMsg} (hm : s.task = .got m) :
    Effect cfg l s (s.processMsg m) := by
  unfold processMsg
  split
  · rename_i d hd
    exact .invoke m d hm hd
  · rename_i hd
    by_cases hid : m.id = .exitThread
    · rw [if_pos hid]
      exact .move _ (.exitMsg m hm hd hid)
    · rw [if_neg hid]
      exact .move _ (.noInvoker m hm hd hid)

/-- Every step has one of the listed outcomes. -/
theorem step_effect (cfg : Config) {l : RtosLabel} {s : FreeRtosThread} (hg : guard cfg l s) :
    Effect cfg l s (update cfg l s) := by
  cases l with
  | createThread =>
    simp only [update, createThread]
    by_cases hth : s.thread = true
    · rw [if_pos hth]
      exact .stutter
    · rw [if_neg hth]
      exact .create hg (by simpa using hth)
  | createTask => exact .task hg
  | exitThread =>
    simp only [update, exitThread]
    by_cases hq : s.queue.isNone = true
    · rw [if_pos hq]
      exact .stutter
    · rw [if_neg hq]
      rcases Option.ne_none_iff_exists'.mp (by simpa using hq) with ⟨q, hq⟩
      exact .beginExit q rfl hg hq
  | exitSend => exact .sendExit hg.1
  | exitTake => exact .takeSem hg.1 hg.2
  | exitDrain => exact .drain hg
  | dispatchDelegate m => exact dispatchDelegate_effect hg.1 rfl hg.2
  | dispatchSend m =>
    rcases Option.isSome_iff_exists.mp hg.2.2.1 with ⟨q, hq⟩
    exact .accept m q hg.1 (Or.inr rfl) (Or.inr hg.2.1) hq hg.2.2.2
  | dispatchTimeout m => exact reject_effect hg.1 (Or.inr hg.2)
  | runLoop =>
    simp only [update]
    by_cases hexit : s.exit = true
    · rw [if_pos hexit]
      exact .move _ (.leave hg hexit)
    · rw [if_neg hexit]
      exact .move _ (.receive hg (by simpa using hexit))
  | runReceive =>
    simp only [update, receive]
    rcases hg with ⟨htask, hne⟩
    split
    · rename_i m rest hq
      exact .pop m rest htask hq
    · exact .stutter
  | runTimeout => exact .move _ (.timeout hg.1 hg.2)
  | runMsg m => exact processMsg_effect hg
  | invokeReturn m => exact .move _ (.returned m hg)
  | invokeThrow m => exact .move _ (.threw m hg)
  | runGive => exact .give hg

end FreeRtosThread

end AsyncSqlite
