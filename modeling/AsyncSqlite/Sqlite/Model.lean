import AsyncSqlite.Thread.Handler
import AsyncSqlite.Delegate.AsyncWait
import AsyncSqlite.Delegate.AsyncFuture

/-!
# AsyncSqlite.Sqlite.Model — the asynchronous SQLite interface

`SQLite/async_sqlite3.cpp` in action: the private thread, any number of calls
of the blocking helper `AsyncInvoke`, of the future helper `AsyncInvokeFuture`
and of delegates that a client aims at the thread itself (block execute), and
the programs that issue them.

Reading guide:

* A program is the code of a client thread, or the target of a message while
  the worker runs it (a block-execute function, a SQLite callback). Each issues
  its calls one after the other. Calls are numbered in the order of issue.
* On the worker the blocking helper runs the function in place; such a call may
  itself issue calls, so a program's innermost open call is the last one.
* `thread` steps are those of `Thread`; the guard only adds what the code
  around them decides: who dispatches which message, and when a handler
  returns.
* Every target start is recorded in `started`, with the message on whose behalf
  the worker runs.
-/

namespace AsyncSqlite

universe u

/-! ## Calls -/

/-- `std::invoke(func, args...)` on the worker itself. -/
inductive InlinePc (V : Type u) where
  | running
  | returned (v : V)
  | threw
deriving DecidableEq, Repr

inductive CallState (V : Type u) where
  | unborn
  /-- `AsyncInvoke` was left by the exception of `GetThreadId` -/
  | refused
  | inPlace (pc : InlinePc V)
  | wait (c : WaitCall V)
  | future (c : FutureCall V)
deriving DecidableEq, Repr

namespace CallState

variable {V : Type u}

/-- The call has been left. -/
def isClosed : CallState V → Bool
  | .unborn | .refused => true
  | .inPlace .running => false
  | .inPlace _ => true
  | .wait c => match c.caller with
    | .returned _ _ | .threw => true
    | _ => false
  | .future c => c.caller = .returned || c.caller = .threw

/-- The program that issued the call is in its own code again, or in a function
that the call runs in place. -/
def isQuiet : CallState V → Bool
  | .inPlace _ => true
  | st => st.isClosed

/-- The call is in `DispatchDelegate`. -/
def isDispatching : CallState V → Bool
  | .wait c => match c.caller with
    | .dispatching => true
    | _ => false
  | .future c => c.caller = .dispatching
  | _ => false

/-- The worker begins to invoke the message of the call. -/
def enter : CallState V → CallState V
  | .wait c => .wait (c.update .enter)
  | .future c => .future (c.update .enter)
  | st => st

/-- The invoker of the message is inside the target. -/
def targetRunning : CallState V → Bool
  | .wait c => c.invoke = .running
  | .future c => match c.task with
    | .running => true
    | _ => false
  | _ => false

/-- `Invoke` returns to `Process`. -/
def handlerReturned : CallState V → Bool
  | .wait c => c.invoke.isReturned
  | .future c => match c.task with
    | .done => true
    | _ => false
  | _ => false

/-- `Invoke` is left by the exception of the target. -/
def handlerThrew : CallState V → Bool
  | .wait c => c.invoke = .failed
  | _ => false

end CallState

structure Call (V : Type u) where
  /-- the thread that issued the call -/
  caller : Tid
  /-- the message whose target issued the call; `none` for a client -/
  program : Option ℕ
  state : CallState V

/-- One start of a target or of a function run in place. -/
structure Start where
  /-- the message on whose behalf the worker runs -/
  program : ℕ
  call : ℕ
deriving DecidableEq, Repr

structure Sys (V : Type u) where
  thread : ThreadState
  calls : ℕ → Call V
  ncalls : ℕ
  /-- `future.get()` in progress -/
  awaiting : Tid → Option ℕ
  /-- history: starts of targets and of functions run in place -/
  started : List Start

/-- `static dmq::os::Thread SQLiteThread("SQLite Thread")`: no queue limit. -/
def sqliteConfig : Config := ⟨0, .fault⟩

/-- The message of call `i`; `MakeDelegate` uses the default priority. -/
abbrev message (i : ℕ) : DelegateMsg := ⟨i, true, .normal⟩

namespace Sys

variable {V : Type u}

def initial : Sys V where
  thread := ThreadState.initial
  calls := fun _ => ⟨.client 0, none, .unborn⟩
  ncalls := 0
  awaiting := fun _ => none
  started := []

def state (s : Sys V) (i : ℕ) : CallState V := (s.calls i).state

def setState (s : Sys V) (i : ℕ) (st : CallState V) : Sys V :=
  { s with calls := Function.update s.calls i { s.calls i with state := st } }

def recordStart (s : Sys V) (p i : ℕ) : Sys V := { s with started := s.started ++ [⟨p, i⟩] }

def withThread (s : Sys V) (t : ThreadState) : Sys V := { s with thread := t }

/-! ## Programs -/

/-- The message that thread `t` runs. -/
def programOf (s : Sys V) : Tid → Option ℕ
  | .client _ => none
  | .worker w => match (s.thread.worker w).pc with
    | .invoking m => some m.id
    | _ => none

/-- A client always runs its program; a worker runs one while it is inside the
target of a message. -/
def inProgram (s : Sys V) : Tid → Prop
  | .client _ => True
  | .worker w => match (s.thread.worker w).pc with
    | .invoking m => (s.state m.id).targetRunning = true
    | _ => False

instance (s : Sys V) (t : Tid) : Decidable (s.inProgram t) := by
  induction t using Tid.casesOn with
  | client c => exact isTrue trivial
  | worker w =>
    dsimp only [inProgram]
    generalize (s.thread.worker w).pc = pc
    induction pc using WorkerPc.casesOn <;> infer_instance

/-- Thread `t` is inside `ExitThread`. -/
def inExit (s : Sys V) (t : Tid) : Prop :=
  s.thread.control = .exitPush t ∨ s.thread.control = .exitJoin t ∨
    s.thread.control = .exitReset t

instance (s : Sys V) (t : Tid) : Decidable (s.inExit t) :=
  inferInstanceAs (Decidable (_ ∨ _))

/-- The program of `t` is in its own code. -/
def mayAct (s : Sys V) (t : Tid) : Prop :=
  s.inProgram t ∧ ¬ s.inExit t ∧ s.awaiting t = none ∧
    ∀ i < s.ncalls, (s.calls i).caller = t → (s.state i).isQuiet = true

instance (s : Sys V) (t : Tid) : Decidable (s.mayAct t) :=
  inferInstanceAs (Decidable (_ ∧ _))

/-- The program of `t` is in its own code and all calls from number `n` on have
been left: what `n` runs in place may return. -/
def mayLeave (s : Sys V) (t : Tid) (n : ℕ) : Prop :=
  ¬ s.inExit t ∧ s.awaiting t = none ∧
    ∀ i < s.ncalls, n ≤ i → (s.calls i).caller = t → (s.state i).isClosed = true

instance (s : Sys V) (t : Tid) (n : ℕ) : Decidable (s.mayLeave t n) :=
  inferInstanceAs (Decidable (_ ∧ _))

/-! ## Issuing calls -/

/-- A new call by `t`. -/
def issue (s : Sys V) (t : Tid) (st : CallState V) : Sys V :=
  { s with
    calls := Function.update s.calls s.ncalls ⟨t, s.programOf t, st⟩
    ncalls := s.ncalls + 1 }

/-- `AsyncInvoke`: dispatch a blocking delegate, unless this is the worker. -/
def asyncInvoke (s : Sys V) (t : Tid) (forever : Bool) : Sys V :=
  match s.thread.getThreadId with
  | none => s.issue t .refused
  | some id =>
    if id = some t then
      (s.issue t (.inPlace .running)).recordStart ((s.programOf t).getD s.ncalls) s.ncalls
    else s.issue t (.wait (.initial forever))

/-- `AsyncInvokeFuture`, up to its dispatch. -/
def asyncInvokeFuture (s : Sys V) (t : Tid) : Sys V :=
  match s.thread.getThreadId with
  | none => s.issue t (.future .refused)
  | some none => s.issue t (.future .notRunning)
  | some (some _) => s.issue t (.future .initial)

/-! ## Futures -/

/-- The message of a point of `Process`. -/
def heldBy : WorkerPc → Option DelegateMsg
  | .got m => m.data
  | .invoking m => some m
  | _ => none

/-- The message of call `i` exists: it is queued, or a worker holds it. -/
def held (s : Sys V) (i : ℕ) : Bool :=
  (s.thread.queued .high ++ s.thread.queued .normal).any (·.id = i) ||
    (List.range s.thread.spawned).any fun w => (heldBy (s.thread.worker w).pc).any (·.id = i)

/-- What the future of call `i` holds. -/
def result (s : Sys V) (i : ℕ) : Option (Outcome V) :=
  match s.state i with
  | .future c => c.result (s.held i)
  | _ => none

/-- The future of call `i` has been handed out. -/
def hasFuture (s : Sys V) (i : ℕ) : Bool :=
  match s.state i with
  | .future c => c.caller = .returned
  | _ => false

end Sys

/-! ## The transition system -/

/-- Labels of the caller's side of a blocking call. -/
def WaitLabel.isCaller {V : Type u} : WaitLabel V → Bool
  | .dispatched _ | .dispatchThrew | .waitSignaled | .waitTimeout | .callerLock _
  | .callerRead _ | .callerClear _ _ | .callerUnlock _ _ => true
  | _ => false

/-- The target is left. -/
def WaitLabel.isTargetExit {V : Type u} : WaitLabel V → Bool
  | .targetReturn _ | .targetThrow => true
  | _ => false

/-- The step starts the target. -/
def WaitCall.startsTarget {V : Type u} (c : WaitCall V) : WaitLabel V → Bool
  | .workerCheck => c.invokerWaiting
  | _ => false

def FutureLabel.isCaller {V : Type u} : FutureLabel V → Bool
  | .dispatched | .dispatchThrew | .ret => true
  | _ => false

def FutureLabel.isTargetExit {V : Type u} : FutureLabel V → Bool
  | .targetReturn _ | .targetThrow => true
  | _ => false

/-- The step starts the target. -/
def FutureLabel.isRun {V : Type u} : FutureLabel V → Bool
  | .run => true
  | _ => false

inductive SysLabel (V : Type u) where
  | thread (l : ThreadLabel)
  | asyncInvoke (t : Tid) (forever : Bool)
  /-- a client calls a blocking delegate that it aimed at the thread itself -/
  | blockExecute (c : ℕ) (forever : Bool)
  | asyncInvokeFuture (t : Tid)
  /-- the caller's side of blocking call `i` -/
  | wait (i : ℕ) (l : WaitLabel V)
  /-- worker `w` inside `Invoke` for blocking call `i` -/
  | invoke (w i : ℕ) (l : WaitLabel V)
  /-- the caller's side of future call `i` -/
  | future (i : ℕ) (l : FutureLabel V)
  /-- worker `w` inside the task of future call `i` -/
  | task (w i : ℕ) (l : FutureLabel V)
  | inPlaceReturn (i : ℕ) (v : V)
  | inPlaceThrow (i : ℕ)
  /-- `future.get()` of the future of call `i` -/
  | get (t : Tid) (i : ℕ)
  | gotten (t : Tid) (i : ℕ)
deriving DecidableEq, Repr

namespace Sys

variable {V : Type u}

/-- What the code around the thread decides about its steps. -/
def threadGuard (s : Sys V) : ThreadLabel → Prop
  | .exitThread t => s.mayAct t
  | .dispatchDelegate m => m = message m.id ∧ (s.state m.id).isDispatching = true
  | .invokeReturn _ m => (s.state m.id).handlerReturned = true
  | .invokeThrow _ m => (s.state m.id).handlerThrew = true
  | _ => True

instance (s : Sys V) (l : ThreadLabel) : Decidable (s.threadGuard l) := by
  induction l using ThreadLabel.casesOn <;> dsimp only [threadGuard] <;> infer_instance

/-- What `DispatchDelegate` told the caller. -/
def waitGuard (s : Sys V) (i : ℕ) : WaitLabel V → Prop
  | .dispatched ok => s.thread.dispatch i = .returned (message i) ok
  | .dispatchThrew => s.thread.dispatch i = .threw (message i)
  | _ => True

instance (s : Sys V) (i : ℕ) (l : WaitLabel V) : Decidable (s.waitGuard i l) := by
  induction l using WaitLabel.casesOn <;> dsimp only [waitGuard] <;> infer_instance

def futureGuard (s : Sys V) (i : ℕ) : FutureLabel V → Prop
  | .dispatched => ∃ ok, s.thread.dispatch i = .returned (message i) ok
  | .dispatchThrew => s.thread.dispatch i = .threw (message i)
  | _ => True

instance (s : Sys V) (i : ℕ) (l : FutureLabel V) : Decidable (s.futureGuard i l) :=
  match l with
  | .dispatched =>
    decidable_of_iff (s.thread.dispatch i = .returned (message i) false ∨
      s.thread.dispatch i = .returned (message i) true) (by simp [futureGuard])
  | .dispatchThrew => inferInstanceAs (Decidable (_ = _))
  | .ret | .enter | .run | .targetReturn _ | .targetThrow | .settle _ => isTrue trivial

def guard : SysLabel V → Sys V → Prop
  | .thread l, s => ThreadState.guard l s.thread ∧ s.threadGuard l
  | .asyncInvoke t _, s => s.mayAct t
  | .blockExecute c _, s => s.mayAct (.client c)
  | .asyncInvokeFuture t, s => s.mayAct t
  | .wait i l, s => l.isCaller = true ∧ s.waitGuard i l ∧
      ∃ c, s.state i = .wait c ∧ WaitCall.guard l c
  | .invoke w i l, s => l.isCaller = false ∧ l ≠ .enter ∧
      (s.thread.worker w).pc = .invoking (message i) ∧
      (l.isTargetExit = true → s.mayLeave (.worker w) 0) ∧
      ∃ c, s.state i = .wait c ∧ WaitCall.guard l c
  | .future i l, s => l.isCaller = true ∧ s.futureGuard i l ∧
      ∃ c, s.state i = .future c ∧ FutureCall.guard l c
  | .task w i l, s => l.isCaller = false ∧ l ≠ .enter ∧
      (s.thread.worker w).pc = .invoking (message i) ∧
      (l.isTargetExit = true → s.mayLeave (.worker w) 0) ∧
      ∃ c, s.state i = .future c ∧ FutureCall.guard l c
  | .inPlaceReturn i _, s => s.state i = .inPlace .running ∧ s.mayLeave (s.calls i).caller (i + 1)
  | .inPlaceThrow i, s => s.state i = .inPlace .running ∧ s.mayLeave (s.calls i).caller (i + 1)
  | .get t i, s => s.mayAct t ∧ s.hasFuture i = true
  | .gotten t i, s => s.awaiting t = some i ∧ (s.result i).isSome = true

def update : SysLabel V → Sys V → Sys V
  | .thread l, s =>
    let s' := s.withThread (ThreadState.update sqliteConfig l s.thread)
    match l with
    | .processSwitch _ x => match x.target with
      | some m => s'.setState m.id (s.state m.id).enter
      | none => s'
    | _ => s'
  | .asyncInvoke t forever, s => s.asyncInvoke t forever
  | .blockExecute c forever, s => s.issue (.client c) (.wait (.initial forever))
  | .asyncInvokeFuture t, s => s.asyncInvokeFuture t
  | .wait i l, s => match s.state i with
    | .wait c => s.setState i (.wait (c.update l))
    | _ => s
  | .invoke _ i l, s => match s.state i with
    | .wait c =>
      let s' := s.setState i (.wait (c.update l))
      if c.startsTarget l then s'.recordStart i i else s'
    | _ => s
  | .future i l, s => match s.state i with
    | .future c => s.setState i (.future (c.update l))
    | _ => s
  | .task _ i l, s => match s.state i with
    | .future c =>
      let s' := s.setState i (.future (c.update l))
      if l.isRun then s'.recordStart i i else s'
    | _ => s
  | .inPlaceReturn i v, s => s.setState i (.inPlace (.returned v))
  | .inPlaceThrow i, s => s.setState i (.inPlace .threw)
  | .get t i, s => { s with awaiting := Function.update s.awaiting t (some i) }
  | .gotten t _, s => { s with awaiting := Function.update s.awaiting t none }

section Decide

variable [DecidableEq V]

instance (s : Sys V) (i : ℕ) (l : WaitLabel V) :
    Decidable (∃ c, s.state i = .wait c ∧ WaitCall.guard l c) :=
  match h : s.state i with
  | .wait c => decidable_of_iff (WaitCall.guard l c) (by simp)
  | .unborn | .refused | .inPlace _ | .future _ => isFalse (by simp)

instance (s : Sys V) (i : ℕ) (l : FutureLabel V) :
    Decidable (∃ c, s.state i = .future c ∧ FutureCall.guard l c) :=
  match h : s.state i with
  | .future c => decidable_of_iff (FutureCall.guard l c) (by simp)
  | .unborn | .refused | .inPlace _ | .wait _ => isFalse (by simp)

instance (l : SysLabel V) (s : Sys V) : Decidable (guard l s) := by
  cases l <;> simp only [guard] <;> infer_instance

end Decide

end Sys

/-- The asynchronous SQLite interface with all its callers. -/
def sysLts (V : Type u) : Lts (Sys V) (SysLabel V) where
  init := fun s => s = Sys.initial
  guard := Sys.guard
  update := Sys.update

instance {V : Type u} [DecidableEq V] (l : SysLabel V) (s : Sys V) :
    Decidable ((sysLts V).guard l s) :=
  inferInstanceAs (Decidable (Sys.guard l s))

/-! ## Stretches of a run

Concrete interleavings are put together from these. -/

namespace Run

variable {V : Type u}

/-- `CreateThread`, up to its return; the worker is the first one. -/
def create : List (SysLabel V) :=
  [.thread .createThread, .thread .createClear, .thread .createSpawn, .thread (.processStart 0),
    .thread (.createStart 0)]

/-- The message of call `i` is accepted. -/
def dispatch (i : ℕ) : List (SysLabel V) :=
  [.thread (.dispatchDelegate (message i)), .thread (.dispatchHasValue (message i)),
    .thread (.dispatchLocked (message i))]

/-- The worker takes the message of call `i` from the loop into `Invoke`. -/
def take (i : ℕ) : List (SysLabel V) :=
  [.thread (.processLoop 0), .thread (.processTake 0),
    .thread (.processSwitch 0 (.delegate (message i)))]

/-- `Invoke` of blocking call `i` reaches the target. -/
def start (i : ℕ) : List (SysLabel V) := [.invoke 0 i .workerLock, .invoke 0 i .workerCheck]

/-- The target of blocking call `i` returns `v`, and `Invoke` with it. -/
def finish (i : ℕ) (v : V) : List (SysLabel V) :=
  [.invoke 0 i (.targetReturn v), .invoke 0 i .setSucceeded, .invoke 0 i .signal,
    .invoke 0 i .workerUnlock]

/-- The caller of blocking call `i` locks the message and leaves `operator()`. -/
def leave (i : ℕ) (waited success : Bool) (retVal : Option V) : List (SysLabel V) :=
  [.wait i (.callerLock waited), .wait i (.callerRead waited),
    .wait i (.callerClear success retVal), .wait i (.callerUnlock success retVal)]

end Run

end AsyncSqlite
