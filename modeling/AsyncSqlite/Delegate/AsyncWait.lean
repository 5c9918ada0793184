import AsyncSqlite.Lts.Core
import Mathlib.Data.List.Basic
import Mathlib.Tactic.Common

/-!
# AsyncSqlite.Delegate.AsyncWait — one blocking delegate call

The two sides of `delegate/DelegateAsyncWait.h` for one call: the caller in
`DelegateFreeAsyncWait::operator()` (dispatch, wait on the semaphore, lock the
message, read the result, clear `InvokerWaiting`) and the worker in `Invoke`
(lock the message, test `InvokerWaiting`, run the target, report, signal). They
share the message and the clone of the delegate.

The wait may time out at any step unless the timeout is `Duration::max()`.
`operator()` returns with the message lock released, and a `DispatchDelegate`
that throws leaves it without taking the lock.
-/

namespace AsyncSqlite

universe u

/-- Who holds `DelegateAsyncWaitMsg::GetLock()`. -/
inductive Side where
  | caller | worker
deriving DecidableEq, Repr

/-- Where `operator()` is. -/
inductive CallerPc (V : Type u) where
  /-- in `DispatchDelegate` -/
  | dispatching
  /-- in `GetSema().Wait(m_timeout)` -/
  | waiting
  /-- about to lock the message; `waited` is the local variable -/
  | locking (waited : Bool)
  | locked (waited : Bool)
  /-- `m_success` and `m_retVal` are set -/
  | read (success : Bool) (retVal : Option V)
  /-- `SetInvokerWaiting(false)` is done -/
  | cleared (success : Bool) (retVal : Option V)
  | returned (success : Bool) (retVal : Option V)
  /-- left by an exception of `DispatchDelegate` -/
  | threw
deriving DecidableEq, Repr

/-- Where `Invoke` is. -/
inductive InvokePc where
  | idle
  /-- about to lock the message -/
  | entered
  | locked
  /-- in the target function -/
  | running
  /-- `m_retVal` is assigned -/
  | assigned
  /-- `SetInvokeSucceeded(true)` is done -/
  | succeeded
  /-- the semaphore is signaled, the lock still held -/
  | signaled
  | done
  /-- the target threw; the guards are being unwound -/
  | thrown
  | unwound
  | failed
  /-- the invoker is not waiting any more -/
  | skipped
  | ignored
deriving DecidableEq, Repr

structure WaitCall (V : Type u) where
  /-- `m_timeout == Duration::max()` -/
  forever : Bool
  caller : CallerPc V
  invoke : InvokePc
  /-- holder of `GetLock()` -/
  lock : Option Side
  /-- `m_signaled` of `GetSema()` -/
  signaled : Bool
  invokerWaiting : Bool
  invokeSucceeded : Bool
  /-- `m_retVal` of the clone that the message points to -/
  retVal : Option V
  /-- history: how often the target was started -/
  starts : ℕ
  /-- history: the values that the target returned -/
  produced : List V
deriving DecidableEq, Repr

inductive WaitLabel (V : Type u) where
  | dispatched (ok : Bool)
  | dispatchThrew
  | waitSignaled
  | waitTimeout
  | callerLock (waited : Bool)
  | callerRead (waited : Bool)
  | callerClear (success : Bool) (retVal : Option V)
  | callerUnlock (success : Bool) (retVal : Option V)
  | enter
  | workerLock
  | workerCheck
  | targetReturn (v : V)
  | targetThrow
  | setSucceeded
  | signal
  | workerUnlock
deriving DecidableEq, Repr

namespace InvokePc

/-- `~SemaSignalGuard`. -/
def afterSignal : InvokePc → InvokePc
  | .succeeded => .signaled
  | .thrown => .unwound
  | pc => pc

/-- The end of the scope of the message lock. -/
def afterUnlock : InvokePc → InvokePc
  | .signaled => .done
  | .unwound => .failed
  | .skipped => .ignored
  | pc => pc

/-- `Invoke` has returned. -/
def isReturned (pc : InvokePc) : Bool := pc = .done || pc = .ignored

/-- The target has been started. -/
def isStarted : InvokePc → Bool
  | .idle | .entered | .locked | .skipped | .ignored => false
  | _ => true

def holdsLock : InvokePc → Bool
  | .locked | .running | .assigned | .succeeded | .signaled | .thrown | .unwound | .skipped => true
  | _ => false

/-- The semaphore has been signaled. -/
def isSignaled : InvokePc → Bool
  | .signaled | .done | .unwound | .failed => true
  | _ => false

end InvokePc

namespace CallerPc

variable {V : Type u}

def holdsLock : CallerPc V → Bool
  | .locked _ | .read _ _ | .cleared _ _ => true
  | _ => false

/-- `InvokerWaiting` has been cleared. -/
def isCleared : CallerPc V → Bool
  | .cleared _ _ | .returned _ _ => true
  | _ => false

/-- The wait has ended without the semaphore, or there was none. -/
def gaveUp : CallerPc V → Bool
  | .locking false | .locked false => true
  | .read success _ | .cleared success _ | .returned success _ => !success
  | _ => false

end CallerPc

namespace WaitCall

variable {V : Type u}

/-- The state in which the message is handed to `DispatchDelegate`. -/
def initial (forever : Bool) : WaitCall V where
  forever := forever
  caller := .dispatching
  invoke := .idle
  lock := none
  signaled := false
  invokerWaiting := true
  invokeSucceeded := false
  retVal := none
  starts := 0
  produced := []

/-- What each side waits for at its own program counter. `enter` is the worker
thread's step, so the call has no say in it. -/
def guard : WaitLabel V → WaitCall V → Prop
  | .dispatched _, c => c.caller = .dispatching
  | .dispatchThrew, c => c.caller = .dispatching
  | .waitSignaled, c => c.caller = .waiting ∧ c.signaled = true
  | .waitTimeout, c => c.caller = .waiting ∧ c.signaled = false ∧ c.forever = false
  | .callerLock waited, c => c.caller = .locking waited ∧ c.lock = none
  | .callerRead waited, c => c.caller = .locked waited
  | .callerClear success retVal, c => c.caller = .read success retVal
  | .callerUnlock success retVal, c => c.caller = .cleared success retVal
  | .enter, _ => True
  | .workerLock, c => c.invoke = .entered ∧ c.lock = none
  | .workerCheck, c => c.invoke = .locked
  | .targetReturn _, c => c.invoke = .running
  | .targetThrow, c => c.invoke = .running
  | .setSucceeded, c => c.invoke = .assigned
  | .signal, c => c.invoke = .succeeded ∨ c.invoke = .thrown
  | .workerUnlock, c => c.invoke = .signaled ∨ c.invoke = .unwound ∨ c.invoke = .skipped

instance (l : WaitLabel V) (c : WaitCall V) [DecidableEq V] : Decidable (guard l c) := by
  cases l <;> simp only [guard] <;> infer_instance

def update : WaitLabel V → WaitCall V → WaitCall V
  | .dispatched ok, c => { c with caller := if ok then .waiting else .locking false }
  | .dispatchThrew, c => { c with caller := .threw }
  | .waitSignaled, c => { c with signaled := false, caller := .locking true }
  | .waitTimeout, c => { c with caller := .locking false }
  | .callerLock waited, c => { c with lock := some .caller, caller := .locked waited }
  | .callerRead waited, c =>
    if waited then { c with caller := .read c.invokeSucceeded c.retVal }
    else { c with caller := .read false none }
  | .callerClear success retVal, c =>
    { c with invokerWaiting := false, caller := .cleared success retVal }
  | .callerUnlock success retVal, c =>
    { c with lock := none, caller := .returned success retVal }
  | .enter, c => { c with invoke := .entered }
  | .workerLock, c => { c with lock := some .worker, invoke := .locked }
  | .workerCheck, c =>
    if c.invokerWaiting then { c with invoke := .running, starts := c.starts + 1 }
    else { c with invoke := .skipped }
  | .targetReturn v, c =>
    { c with retVal := some v, produced := c.produced ++ [v], invoke := .assigned }
  | .targetThrow, c => { c with invoke := .thrown }
  | .setSucceeded, c => { c with invokeSucceeded := true, invoke := .succeeded }
  | .signal, c => { c with signaled := true, invoke := c.invoke.afterSignal }
  | .workerUnlock, c => { c with lock := none, invoke := c.invoke.afterUnlock }

/-- What the thread owes to the call: it invokes a message once, and only one
that `DispatchDelegate` accepted. -/
def contract : WaitLabel V → WaitCall V → Prop
  | .dispatched false, c => c.invoke = .idle
  | .dispatchThrew, c => c.invoke = .idle
  | .enter, c => c.invoke = .idle ∧ c.caller ≠ .threw
  | _, _ => True

/-- `AsyncInvoke`: the value that `operator()` returned, if `IsSuccess()`. -/
def asyncInvoke [Inhabited V] (success : Bool) (retVal : Option V) : Option V :=
  if success then some (retVal.getD default) else none

/-- The target function is executing. -/
def Executing (c : WaitCall V) : Prop := c.invoke = .running

/-- The wait has ended without the semaphore, and the worker holds the message
lock across the target. -/
def Blocked (c : WaitCall V) : Prop :=
  c.caller = .locking false ∧ c.lock = some .worker ∧ c.Executing

end WaitCall

/-- One blocking call against a thread that keeps its contract. -/
def waitLts (V : Type u) : Lts (WaitCall V) (WaitLabel V) where
  init := fun c => ∃ forever, c = WaitCall.initial forever
  guard := fun l c => WaitCall.guard l c ∧ WaitCall.contract l c
  update := WaitCall.update

namespace WaitCall

variable {V : Type u} {c : WaitCall V} {l : WaitLabel V}

/-! ## Lock and flag -/

structure LockInv (c : WaitCall V) : Prop where
  callerLock : c.lock = some .caller ↔ c.caller.holdsLock = true
  workerLock : c.lock = some .worker ↔ c.invoke.holdsLock = true
  /-- `InvokerWaiting` is cleared under the lock, on the way out -/
  cleared : c.invokerWaiting = false ↔ c.caller.isCleared = true
  /-- the target runs under the lock, for an invoker that is still waiting -/
  started : c.invoke.holdsLock = true → c.invoke.isStarted = true → c.invokerWaiting = true
  count : c.starts = if c.invoke.isStarted then 1 else 0
  threw : c.caller = .threw → c.invoke = .idle

theorem LockInv.initial (forever : Bool) : LockInv (initial forever : WaitCall V) := by
  constructor <;> simp [WaitCall.initial, CallerPc.holdsLock, CallerPc.isCleared,
    InvokePc.holdsLock, InvokePc.isStarted]

/-- Only one side is inside the message lock. -/
theorem LockInv.exclusive (hi : LockInv c) (hc : c.caller.holdsLock = true) :
    c.invoke.holdsLock = false := by
  have hlock := hi.callerLock.mpr hc
  by_contra hw
  have hlock' := hi.workerLock.mpr (by simpa using hw)
  rw [hlock] at hlock'
  cases hlock'

/-- A call whose message is being handled was accepted. -/
theorem LockInv.ne_threw (hi : LockInv c) (hbusy : c.invoke ≠ .idle) : c.caller ≠ .threw :=
  fun hthrew => hbusy (hi.threw hthrew)

/-- The caller moves on; lock and flag stay as they are. -/
theorem LockInv.callerMove {c' : WaitCall V} (hi : LockInv c)
    (hholds : c'.caller.holdsLock = c.caller.holdsLock)
    (hcl : c'.caller.isCleared = c.caller.isCleared)
    (hthrew : c'.caller = .threw → c.invoke = .idle) (hlock : c'.lock = c.lock)
    (hwaiting : c'.invokerWaiting = c.invokerWaiting)
    (hinvoke : c'.invoke = c.invoke) (hstarts : c'.starts = c.starts) : LockInv c' := by
  constructor
  · rw [hlock, hholds]
    exact hi.callerLock
  · rw [hlock, hinvoke]
    exact hi.workerLock
  · rw [hwaiting, hcl]
    exact hi.cleared
  · rw [hinvoke, hwaiting]
    exact hi.started
  · rw [hstarts, hinvoke]
    exact hi.count
  · rw [hinvoke]
    exact hthrew

/-- The worker moves on without starting the target; lock and flag stay as they
are. -/
theorem LockInv.workerMove {c' : WaitCall V} (hi : LockInv c) (hthrew : c.caller ≠ .threw)
    (hholds : c'.invoke.holdsLock = c.invoke.holdsLock)
    (hst : c'.invoke.isStarted = c.invoke.isStarted) (hlock : c'.lock = c.lock)
    (hwaiting : c'.invokerWaiting = c.invokerWaiting) (hcaller : c'.caller = c.caller)
    (hstarts : c'.starts = c.starts) : LockInv c' := by
  constructor
  · rw [hlock, hcaller]
    exact hi.callerLock
  · rw [hlock, hholds]
    exact hi.workerLock
  · rw [hwaiting, hcaller]
    exact hi.cleared
  · rw [hholds, hst, hwaiting]
    exact hi.started
  · rw [hstarts, hst]
    exact hi.count
  · rw [hcaller]
    exact fun h => (hthrew h).elim

theorem LockInv.callerLock_step (hi : LockInv c) {waited : Bool}
    (hg : guard (.callerLock waited) c) : LockInv (update (.callerLock waited) c) := by
  obtain ⟨hpc, hfree⟩ := hg
  constructor
  · exact ⟨fun _ => rfl, fun _ => rfl⟩
  · refine ⟨nofun, fun hheld => ?_⟩
    have hlock := hi.workerLock.mpr hheld
    rw [hfree] at hlock
    cases hlock
  · have hcleared := hi.cleared
    rw [hpc] at hcleared
    exact hcleared
  · exact hi.started
  · exact hi.count
  · exact nofun

theorem LockInv.callerClear_step (hi : LockInv c) {success : Bool} {retVal : Option V}
    (hg : guard (.callerClear success retVal) c) :
    LockInv (update (.callerClear success retVal) c) := by
  have hpc : c.caller = .read success retVal := hg
  constructor
  · have hlock := hi.callerLock
    rw [hpc] at hlock
    exact hlock
  · exact hi.workerLock
  · exact ⟨fun _ => rfl, fun _ => rfl⟩
  · -- the caller holds the lock here, so the worker is outside of it
    intro hheld
    have hout : c.invoke.holdsLock = false := hi.exclusive (by rw [hpc]; rfl)
    cases hout.symm.trans hheld
  · exact hi.count
  · exact nofun

theorem LockInv.callerUnlock_step (hi : LockInv c) {success : Bool} {retVal : Option V}
    (hg : guard (.callerUnlock success retVal) c) :
    LockInv (update (.callerUnlock success retVal) c) := by
  have hpc : c.caller = .cleared success retVal := hg
  constructor
  · exact ⟨nofun, nofun⟩
  · refine ⟨nofun, fun hheld => ?_⟩
    have hout : c.invoke.holdsLock = false := hi.exclusive (by rw [hpc]; rfl)
    cases hout.symm.trans hheld
  · have hcleared := hi.cleared
    rw [hpc] at hcleared
    exact hcleared
  · exact hi.started
  · exact hi.count
  · exact nofun

theorem LockInv.workerLock_step (hi : LockInv c) (hg : guard .workerLock c) :
    LockInv (update .workerLock c) := by
  obtain ⟨hpc, hfree⟩ := hg
  constructor
  · refine ⟨nofun, fun hheld => ?_⟩
    have hlock := hi.callerLock.mpr hheld
    rw [hfree] at hlock
    cases hlock
  · exact ⟨fun _ => rfl, fun _ => rfl⟩
  · exact hi.cleared
  · exact nofun
  · have hcount := hi.count
    rw [hpc] at hcount
    exact hcount
  · exact fun h => (hi.ne_threw (by rw [hpc]; exact nofun) h).elim

/-- The target is started only while `InvokerWaiting` is set. -/
theorem LockInv.workerCheck_step (hi : LockInv c) (hg : guard .workerCheck c) :
    LockInv (update .workerCheck c) := by
  have hpc : c.invoke = .locked := hg
  have hthrew : c.caller ≠ .threw := hi.ne_threw (by rw [hpc]; exact nofun)
  cases hw : c.invokerWaiting with
  | false =>
    have heq : update .workerCheck c = { c with invoke := .skipped } := by simp [update, hw]
    rw [heq]
    exact hi.workerMove hthrew (by rw [hpc]; rfl) (by rw [hpc]; rfl) rfl rfl rfl rfl
  | true =>
    have heq : update .workerCheck c = { c with invoke := .running, starts := c.starts + 1 } := by
      simp [update, hw]
    rw [heq]
    constructor
    · exact hi.callerLock
    · have hlock := hi.workerLock
      rw [hpc] at hlock
      exact hlock
    · exact hi.cleared
    · exact fun _ _ => hw
    · have hcount := hi.count
      rw [hpc] at hcount
      exact congrArg (· + 1) hcount
    · exact fun h => (hthrew h).elim

theorem LockInv.workerUnlock_step (hi : LockInv c) (hg : guard .workerUnlock c) :
    LockInv (update .workerUnlock c) := by
  have hheld : c.invoke.holdsLock = true := by
    rcases hg with hpc | hpc | hpc <;> rw [hpc] <;> rfl
  have hafter : c.invoke.afterUnlock.holdsLock = false ∧
      c.invoke.afterUnlock.isStarted = c.invoke.isStarted := by
    rcases hg with hpc | hpc | hpc <;> rw [hpc] <;> exact ⟨rfl, rfl⟩
  constructor
  · refine ⟨nofun, fun hcaller => ?_⟩
    cases (hi.exclusive hcaller).symm.trans hheld
  · refine ⟨nofun, fun h => ?_⟩
    cases hafter.1.symm.trans h
  · exact hi.cleared
  · intro h
    cases hafter.1.symm.trans h
  · show c.starts = if c.invoke.afterUnlock.isStarted then 1 else 0
    rw [hafter.2]
    exact hi.count
  · refine fun h => (hi.ne_threw (fun hidle => ?_) h).elim
    rw [hidle] at hheld
    cases hheld

theorem LockInv.step (hg : guard l c) (hct : contract l c) (hi : LockInv c) :
    LockInv (update l c) := by
  cases l with
  | dispatched ok =>
    have hpc : c.caller = .dispatching := hg
    refine hi.callerMove ?_ ?_ ?_ rfl rfl rfl rfl
    · rw [hpc]
      cases ok <;> rfl
    · rw [hpc]
      cases ok <;> rfl
    · intro h
      cases ok <;> cases h
  | dispatchThrew =>
    -- a dispatch that throws has queued nothing, so the target is not entered
    have hpc : c.caller = .dispatching := hg
    exact hi.callerMove (by rw [hpc]; rfl) (by rw [hpc]; rfl) (fun _ => hct) rfl rfl rfl rfl
  | waitSignaled =>
    obtain ⟨hpc, -⟩ := hg
    exact hi.callerMove (by rw [hpc]; rfl) (by rw [hpc]; rfl) nofun rfl rfl rfl rfl
  | waitTimeout =>
    obtain ⟨hpc, -⟩ := hg
    exact hi.callerMove (by rw [hpc]; rfl) (by rw [hpc]; rfl) nofun rfl rfl rfl rfl
  | callerLock waited => exact hi.callerLock_step hg
  | callerRead waited =>
    have hpc : c.caller = .locked waited := hg
    cases waited <;>
      exact hi.callerMove (by rw [hpc]; rfl) (by rw [hpc]; rfl) nofun rfl rfl rfl rfl
  | callerClear success retVal => exact hi.callerClear_step hg
  | callerUnlock success retVal => exact hi.callerUnlock_step hg
  | enter =>
    -- the worker enters once, and not after a dispatch that threw
    obtain ⟨hpc, hthrew⟩ := hct
    exact hi.workerMove hthrew (by rw [hpc]; rfl) (by rw [hpc]; rfl) rfl rfl rfl rfl
  | workerLock => exact hi.workerLock_step hg
  | workerCheck => exact hi.workerCheck_step hg
  | targetReturn v =>
    have hpc : c.invoke = .running := hg
    exact hi.workerMove (hi.ne_threw (by rw [hpc]; exact nofun)) (by rw [hpc]; rfl)
      (by rw [hpc]; rfl) rfl rfl rfl rfl
  | targetThrow =>
    have hpc : c.invoke = .running := hg
    exact hi.workerMove (hi.ne_threw (by rw [hpc]; exact nofun)) (by rw [hpc]; rfl)
      (by rw [hpc]; rfl) rfl rfl rfl rfl
  | setSucceeded =>
    have hpc : c.invoke = .assigned := hg
    exact hi.workerMove (hi.ne_threw (by rw [hpc]; exact nofun)) (by rw [hpc]; rfl)
      (by rw [hpc]; rfl) rfl rfl rfl rfl
  | signal =>
    rcases hg with hpc | hpc
    · refine hi.workerMove (hi.ne_threw (by rw [hpc]; exact nofun)) ?_ ?_ rfl rfl rfl rfl <;>
        simp [update, hpc, InvokePc.afterSignal, InvokePc.holdsLock, InvokePc.isStarted]
    · refine hi.workerMove (hi.ne_threw (by rw [hpc]; exact nofun)) ?_ ?_ rfl rfl rfl rfl <;>
        simp [update, hpc, InvokePc.afterSignal, InvokePc.holdsLock, InvokePc.isStarted]
  | workerUnlock => exact hi.workerUnlock_step hg

theorem lock_of_reachable {ok : WaitLabel V → WaitCall V → Prop}
    (h : (waitLts V).ReachableWhen ok c) : LockInv c := by
  refine h.induct ?_ ?_
  · rintro c ⟨forever, rfl⟩
    exact .initial forever
  · intro l c _ hg _ hi
    exact hi.step hg.1 hg.2

/-! ## The call cannot outlive its caller -/

/-- `operator()` has been left, by its return or by an exception. -/
def HasLeft (c : WaitCall V) : Prop :=
  (∃ success retVal, c.caller = .returned success retVal) ∨ c.caller = .threw

/-- Behind the end of `operator()` the target is not executing. -/
theorem LockInv.not_executing (hi : LockInv c) (hleft : HasLeft c) : ¬ Executing c := by
  intro hrun
  have hpc : c.invoke = .running := hrun
  rcases hleft with ⟨success, retVal, hret⟩ | hthrew
  · -- the invoker has stopped waiting, which a started target excludes
    have hwaiting := hi.started (by simp [hpc, InvokePc.holdsLock])
      (by simp [hpc, InvokePc.isStarted])
    have hcleared := hi.cleared.mpr (by simp [hret, CallerPc.isCleared])
    rw [hwaiting] at hcleared
    cases hcleared
  · have hidle := hi.threw hthrew
    rw [hpc] at hidle
    cases hidle

/-- Once `operator()` has been left, no step starts the target. -/
theorem LockInv.left_step (hi : LockInv c) (hg : guard l c) (hct : contract l c)
    (hleft : HasLeft c) : HasLeft (update l c) ∧ (update l c).starts = c.starts := by
  have hcaller : ∀ pc, c.caller = pc → (∀ success retVal, pc ≠ .returned success retVal) →
      pc ≠ .threw → False := by
    rintro pc rfl hne hne'
    rcases hleft with ⟨success, retVal, hret⟩ | hthrew
    · exact hne success retVal hret
    · exact hne' hthrew
  cases l with
  | dispatched ok | dispatchThrew => exact (hcaller _ hg (by simp) (by simp)).elim
  | waitSignaled => exact (hcaller _ hg.1 (by simp) (by simp)).elim
  | waitTimeout => exact (hcaller _ hg.1 (by simp) (by simp)).elim
  | callerLock waited => exact (hcaller _ hg.1 (by simp) (by simp)).elim
  | callerRead waited => exact (hcaller _ hg (by simp) (by simp)).elim
  | callerClear success retVal | callerUnlock success retVal =>
    exact (hcaller _ hg (by simp) (by simp)).elim
  | enter | workerLock | targetReturn v | targetThrow | setSucceeded | signal | workerUnlock =>
    exact ⟨hleft, rfl⟩
  | workerCheck =>
    have hpc : c.invoke = .locked := hg
    -- `Invoke` finds that nobody waits
    have hcleared : c.invokerWaiting = false := by
      rcases hleft with ⟨success, retVal, hret⟩ | hthrew
      · exact hi.cleared.mpr (by simp [hret, CallerPc.isCleared])
      · rw [hi.threw hthrew] at hpc
        cases hpc
    simp only [update, hcleared]
    exact ⟨hleft, rfl⟩

/-- Once `operator()` has been left, no run starts the target. -/
theorem left_steps (h : (waitLts V).Reachable c) {c' : WaitCall V} (hrun : (waitLts V).Steps c c')
    (hleft : HasLeft c) : HasLeft c' ∧ c'.starts = c.starts := by
  refine h.preserves (P := fun x => HasLeft x ∧ x.starts = c.starts) ?_ hrun ⟨hleft, rfl⟩
  intro l x hr hg _ ⟨hx, hstarts⟩
  rcases (lock_of_reachable hr).left_step hg.1 hg.2 hx with ⟨hx', hstarts'⟩
  exact ⟨hx', hstarts'.trans hstarts⟩

theorem LockInv.starts_le (hi : LockInv c) : c.starts ≤ 1 := by
  rw [hi.count]
  split <;> omega

/-- The wait on the semaphore is over. -/
def WaitOver (c : WaitCall V) : Prop := c.caller ≠ .dispatching ∧ c.caller ≠ .waiting

theorem WaitOver.step (hg : guard l c) (h : WaitOver c) : WaitOver (update l c) := by
  cases l with
  | dispatched ok | dispatchThrew => exact absurd hg h.1
  | waitSignaled => exact absurd hg.1 h.2
  | waitTimeout => exact absurd hg.1 h.2
  | callerLock _ | callerClear _ _ | callerUnlock _ _ => simp [WaitOver, update]
  | callerRead waited => cases waited <;> simp [WaitOver, update]
  | workerCheck =>
    simp only [update]
    split <;> exact h
  | enter | workerLock | targetReturn _ | targetThrow | setSucceeded | signal | workerUnlock =>
    exact h

/-! ## What the two sides tell each other -/

structure ReportInv (c : WaitCall V) : Prop where
  succeeded : c.invokeSucceeded = true ↔
    c.invoke = .succeeded ∨ c.invoke = .signaled ∨ c.invoke = .done
  produced : c.invoke = .assigned ∨ c.invokeSucceeded = true →
    ∃ v, c.produced = [v] ∧ c.retVal = some v
  nothing : c.invoke ≠ .assigned → c.invokeSucceeded = false → c.produced = []
  /-- the semaphore is signaled only by the worker … -/
  signaled : c.signaled = true → c.invoke.isSignaled = true
  /-- … and a caller that has not taken the signal finds it -/
  pending : c.invoke.isSignaled = true → c.caller = .dispatching ∨ c.caller = .waiting →
    c.signaled = true
  taken : c.caller = .locking true ∨ c.caller = .locked true → c.invoke.isSignaled = true
  result : ∀ retVal, c.caller = .read true retVal ∨ c.caller = .cleared true retVal ∨
    c.caller = .returned true retVal → c.invoke = .done ∧ retVal = c.retVal

theorem ReportInv.initial (forever : Bool) : ReportInv (initial forever : WaitCall V) := by
  constructor <;> simp [WaitCall.initial, InvokePc.isSignaled]

/-- A step of `Invoke` before the signal only has to keep what the worker has
noted so far. -/
theorem ReportInv.unsignaled (hi : ReportInv c) {c' : WaitCall V}
    (hs : c.invoke.isSignaled = false) (hs' : c'.invoke.isSignaled = false)
    (hcaller : c'.caller = c.caller) (hsignaled : c'.signaled = c.signaled)
    (hsucc : c'.invokeSucceeded = true ↔ c'.invoke = .succeeded)
    (hprod : c'.invoke = .assigned ∨ c'.invokeSucceeded = true →
      ∃ v, c'.produced = [v] ∧ c'.retVal = some v)
    (hnothing : c'.invoke ≠ .assigned → c'.invokeSucceeded = false → c'.produced = []) :
    ReportInv c' := by
  have hunset : c'.signaled = false := by
    rw [hsignaled]
    by_contra hset
    have hsig := hi.signaled (by simpa using hset)
    rw [hs] at hsig
    cases hsig
  refine ⟨?_, hprod, hnothing, ?_, ?_, ?_, ?_⟩
  · rw [hsucc]
    constructor
    · exact Or.inl
    · rintro (hpc | hpc | hpc)
      · exact hpc
      · simp [hpc, InvokePc.isSignaled] at hs'
      · simp [hpc, InvokePc.isSignaled] at hs'
  · intro hset
    rw [hunset] at hset
    cases hset
  · intro hsig
    rw [hs'] at hsig
    cases hsig
  · -- a caller that has taken the signal, or read the result, is behind it
    intro htaken
    rw [hcaller] at htaken
    have hsig := hi.taken htaken
    rw [hs] at hsig
    cases hsig
  · intro retVal hret
    rw [hcaller] at hret
    have hdone := (hi.result retVal hret).1
    simp [hdone, InvokePc.isSignaled] at hs

/-- A step of `Invoke` that neither runs the target nor notes anything. -/
theorem ReportInv.silent (hi : ReportInv c) {c' : WaitCall V}
    (hs : c.invoke.isSignaled = false) (hpc : c.invoke ≠ .assigned ∧ c.invoke ≠ .succeeded)
    (hs' : c'.invoke.isSignaled = false) (hpc' : c'.invoke ≠ .assigned ∧ c'.invoke ≠ .succeeded)
    (hcaller : c'.caller = c.caller) (hsignaled : c'.signaled = c.signaled)
    (hflag : c'.invokeSucceeded = c.invokeSucceeded) (hprod : c'.produced = c.produced) :
    ReportInv c' := by
  have hfalse : c.invokeSucceeded = false := by
    by_contra hset
    rcases hi.succeeded.mp (by simpa using hset) with h | h | h
    · exact hpc.2 h
    · simp [h, InvokePc.isSignaled] at hs
    · simp [h, InvokePc.isSignaled] at hs
  apply hi.unsignaled hs hs' hcaller hsignaled
  · simp [hflag, hfalse, hpc'.2]
  · simp [hflag, hfalse, hpc'.1]
  · intro _ _
    rw [hprod]
    exact hi.nothing hpc.1 hfalse

/-- A step of `Invoke` behind the report, to a point where the semaphore has
been signaled. -/
theorem ReportInv.reported (hi : ReportInv c) {c' : WaitCall V}
    (hpc : c.invoke ≠ .assigned ∧ c.invoke ≠ .done) (hs' : c'.invoke.isSignaled = true)
    (hcaller : c'.caller = c.caller)
    (hpend : c.caller = .dispatching ∨ c.caller = .waiting → c'.signaled = true)
    (hflag : c'.invokeSucceeded = c.invokeSucceeded) (hprod : c'.produced = c.produced)
    (hret : c'.retVal = c.retVal)
    (hsucc : c.invokeSucceeded = true ↔ c'.invoke = .signaled ∨ c'.invoke = .done) :
    ReportInv c' := by
  refine ⟨?_, ?_, ?_, fun _ => hs', ?_, fun _ => hs', ?_⟩
  · have hne : c'.invoke ≠ .succeeded := by
      intro h
      simp [h, InvokePc.isSignaled] at hs'
    rw [hflag, hsucc]
    simp [hne]
  · intro h
    rw [hprod, hret]
    rcases h with h | h
    · simp [h, InvokePc.isSignaled] at hs'
    · exact hi.produced (Or.inr (hflag ▸ h))
  · intro _ h
    rw [hprod]
    exact hi.nothing hpc.1 (hflag ▸ h)
  · intro _ h
    exact hpend (hcaller ▸ h)
  · -- the caller has not read anything yet
    intro retVal hread
    rw [hcaller] at hread
    exact absurd (hi.result retVal hread).1 hpc.2

theorem ReportInv.step (hg : guard l c) (hct : contract l c) (hl : LockInv c) (hi : ReportInv c) :
    ReportInv (update l c) := by
  have ⟨hsucc, hprod, hnothing, hsig, hpend, htaken, hres⟩ := hi
  cases l with
  | dispatched ok =>
    have hpc : c.caller = .dispatching := hg
    cases ok with
    | false =>
      exact ⟨hsucc, hprod, hnothing, hsig, by simp [update], by simp [update], by simp [update]⟩
    | true =>
      exact ⟨hsucc, hprod, hnothing, hsig, fun h _ => hpend h (Or.inl hpc), by simp [update],
        by simp [update]⟩
  | dispatchThrew | waitTimeout =>
    exact ⟨hsucc, hprod, hnothing, hsig, by simp [update], by simp [update], by simp [update]⟩
  | waitSignaled =>
    -- the caller takes the signal and is past the wait
    exact ⟨hsucc, hprod, hnothing, by simp [update], by simp [update], fun _ => hsig hg.2,
      by simp [update]⟩
  | callerLock waited =>
    refine ⟨hsucc, hprod, hnothing, hsig, by simp [update], ?_, by simp [update]⟩
    intro h
    have hwaited : waited = true := by simpa [update] using h
    exact htaken (Or.inl (hwaited ▸ hg.1))
  | callerRead waited =>
    have hpc : c.caller = .locked waited := hg
    have hout : c.invoke.holdsLock = false := hl.exclusive (by simp [hpc, CallerPc.holdsLock])
    cases waited with
    | false =>
      exact ⟨hsucc, hprod, hnothing, hsig, by simp [update], by simp [update], by simp [update]⟩
    | true =>
      refine ⟨hsucc, hprod, hnothing, hsig, by simp [update], by simp [update], ?_⟩
      intro retVal hret
      obtain ⟨hs, hr⟩ : c.invokeSucceeded = true ∧ c.retVal = retVal := by
        simpa [update] using hret
      -- the worker has reported success and is outside of the lock
      rcases hsucc.mp hs with hinv | hinv | hinv
      · simp [hinv, InvokePc.holdsLock] at hout
      · simp [hinv, InvokePc.holdsLock] at hout
      · exact ⟨hinv, hr.symm⟩
  | callerClear success retVal =>
    have hpc : c.caller = .read success retVal := hg
    refine ⟨hsucc, hprod, hnothing, hsig, by simp [update], by simp [update], ?_⟩
    intro x hx
    have hx' : success = true ∧ retVal = x := by simpa [update] using hx
    exact hres x (Or.inl (by rw [hpc, hx'.1, hx'.2]))
  | callerUnlock success retVal =>
    have hpc : c.caller = .cleared success retVal := hg
    refine ⟨hsucc, hprod, hnothing, hsig, by simp [update], by simp [update], ?_⟩
    intro x hx
    have hx' : success = true ∧ retVal = x := by simpa [update] using hx
    exact hres x (Or.inr (Or.inl (by rw [hpc, hx'.1, hx'.2])))
  | enter =>
    have hpc : c.invoke = .idle := hct.1
    exact hi.silent (by simp [hpc, InvokePc.isSignaled]) (by simp [hpc]) rfl (by simp [update])
      rfl rfl rfl rfl
  | workerLock =>
    have hpc : c.invoke = .entered := hg.1
    exact hi.silent (by simp [hpc, InvokePc.isSignaled]) (by simp [hpc]) rfl (by simp [update])
      rfl rfl rfl rfl
  | workerCheck =>
    have hpc : c.invoke = .locked := hg
    have hquiet : c.invoke.isSignaled = false := by simp [hpc, InvokePc.isSignaled]
    simp only [update]
    split
    · exact hi.silent hquiet (by simp [hpc]) rfl (by simp) rfl rfl rfl rfl
    · exact hi.silent hquiet (by simp [hpc]) rfl (by simp) rfl rfl rfl rfl
  | targetReturn v =>
    -- the only run of the target produces the only value
    have hpc : c.invoke = .running := hg
    have hfalse : c.invokeSucceeded = false := by simpa [hpc] using hsucc
    have hnone := hnothing (by simp [hpc]) hfalse
    refine hi.unsignaled (by simp [hpc, InvokePc.isSignaled]) rfl rfl rfl ?_ ?_ ?_
    · simp [update, hfalse]
    · exact fun _ => ⟨v, by simp [update, hnone], rfl⟩
    · simp [update]
  | targetThrow =>
    have hpc : c.invoke = .running := hg
    exact hi.silent (by simp [hpc, InvokePc.isSignaled]) (by simp [hpc]) rfl (by simp [update])
      rfl rfl rfl rfl
  | setSucceeded =>
    have hpc : c.invoke = .assigned := hg
    refine hi.unsignaled (by simp [hpc, InvokePc.isSignaled]) rfl rfl rfl ?_ ?_ ?_
    · simp [update]
    · exact fun _ => hprod (Or.inl hpc)
    · simp [update]
  | signal =>
    rcases hg with hpc | hpc
    · have htrue : c.invokeSucceeded = true := hsucc.mpr (Or.inl hpc)
      refine hi.reported (by simp [hpc]) ?_ rfl (fun _ => rfl) rfl rfl rfl ?_
      · simp [update, hpc, InvokePc.afterSignal, InvokePc.isSignaled]
      · simp [update, hpc, InvokePc.afterSignal, htrue]
    · have hfalse : c.invokeSucceeded = false := by simpa [hpc] using hsucc
      refine hi.reported (by simp [hpc]) ?_ rfl (fun _ => rfl) rfl rfl rfl ?_
      · simp [update, hpc, InvokePc.afterSignal, InvokePc.isSignaled]
      · simp [update, hpc, InvokePc.afterSignal, hfalse]
  | workerUnlock =>
    rcases hg with hpc | hpc | hpc
    · have htrue : c.invokeSucceeded = true := hsucc.mpr (Or.inr (Or.inl hpc))
      have hset := hpend (by simp [hpc, InvokePc.isSignaled])
      refine hi.reported (by simp [hpc]) ?_ rfl hset rfl rfl rfl ?_
      · simp [update, hpc, InvokePc.afterUnlock, InvokePc.isSignaled]
      · simp [update, hpc, InvokePc.afterUnlock, htrue]
    · have hfalse : c.invokeSucceeded = false := by simpa [hpc] using hsucc
      have hset := hpend (by simp [hpc, InvokePc.isSignaled])
      refine hi.reported (by simp [hpc]) ?_ rfl hset rfl rfl rfl ?_
      · simp [update, hpc, InvokePc.afterUnlock, InvokePc.isSignaled]
      · simp [update, hpc, InvokePc.afterUnlock, hfalse]
    · have hout : (update .workerUnlock c).invoke = .ignored := by
        simp [update, hpc, InvokePc.afterUnlock]
      exact hi.silent (by simp [hpc, InvokePc.isSignaled]) (by simp [hpc])
        (by simp [hout, InvokePc.isSignaled]) (by simp [hout]) rfl rfl rfl rfl

theorem report_of_reachable {ok : WaitLabel V → WaitCall V → Prop}
    (h : (waitLts V).ReachableWhen ok c) : ReportInv c := by
  refine h.induct ?_ ?_
  · rintro c ⟨forever, rfl⟩
    exact .initial forever
  · intro l c hr hg _ hi
    exact hi.step hg.1 hg.2 (lock_of_reachable hr)

/-- No signal is lost: a caller that waits on an unset semaphore waits for an
`Invoke` that has not signaled yet. -/
theorem ReportInv.not_signaled (hi : ReportInv c) (hw : c.caller = .waiting)
    (hs : c.signaled = false) : c.invoke.isSignaled = false := by
  by_contra hsig
  have hset := hi.pending (by simpa using hsig) (Or.inr hw)
  rw [hs] at hset
  cases hset

/-- A reported value is the one that the only run of the target returned. -/
theorem ReportInv.value [Inhabited V] (hl : LockInv c) (hi : ReportInv c) {success : Bool}
    {retVal : Option V} (hret : c.caller = .returned success retVal) {v : V}
    (hv : asyncInvoke success retVal = some v) : c.starts = 1 ∧ c.produced = [v] := by
  unfold asyncInvoke at hv
  split at hv
  · rename_i hs
    subst hs
    rcases hi.result retVal (Or.inr (Or.inr hret)) with ⟨hdone, hr⟩
    rcases hi.produced (Or.inr (hi.succeeded.mpr (Or.inr (Or.inr hdone)))) with ⟨x, hprod, hx⟩
    have hxv : x = v := by
      rw [hr, hx] at hv
      simpa using hv
    refine ⟨?_, by rw [hprod, hxv]⟩
    rw [hl.count, hdone]
    rfl
  · cases hv

/-! ## Timeouts in time

A timeout that fires while the worker is inside the message lock, or whose
caller lets the worker lock the message first, comes too late: the target runs
although the wait has ended. The results of this section are about the runs
without such a step. -/

/-- The wait does not time out while the worker holds the message, and the
worker does not lock the message of a caller that has given up and has not
cleared `InvokerWaiting`. -/
def OnTime : WaitLabel V → WaitCall V → Prop
  | .waitTimeout, c => c.lock ≠ some .worker
  | .workerLock, c => c.caller ≠ .locking false
  | _, _ => True

/-- The target does not throw. -/
def NoThrow : WaitLabel V → WaitCall V → Prop
  | .targetThrow, _ => False
  | _, _ => True

instance [DecidableEq V] (l : WaitLabel V) (c : WaitCall V) : Decidable (OnTime l c) := by
  cases l <;> simp only [OnTime] <;> infer_instance

instance (l : WaitLabel V) (c : WaitCall V) : Decidable (NoThrow l c) := by
  cases l <;> simp only [NoThrow] <;> infer_instance

/-- A caller that gave up finds its target not started, and keeps it so. -/
structure OnTimeInv (c : WaitCall V) : Prop where
  noThrow : c.invoke ≠ .thrown ∧ c.invoke ≠ .unwound ∧ c.invoke ≠ .failed
  gaveUp : c.caller.gaveUp = true → c.invoke.isStarted = false
  locked : c.caller.gaveUp = true → c.invoke = .locked → c.caller.isCleared = true

theorem OnTimeInv.step (hg : guard l c) (hct : contract l c) (hok : OnTime l c)
    (hthrow : NoThrow l c) (hl : LockInv c) (hr : ReportInv c) (hi : OnTimeInv c) :
    OnTimeInv (update l c) := by
  rcases hi with ⟨hno, hgave, hlocked⟩
  have hstay : c.invoke.isStarted = true → c.caller.gaveUp = false := by
    intro hst
    by_contra hup
    rw [hgave (by simpa using hup)] at hst
    cases hst
  cases l with
  | dispatched ok =>
    cases ok with
    | false =>
      -- a rejected message is never invoked
      have hidle : c.invoke = .idle := hct
      exact ⟨hno, by simp [update, hidle, InvokePc.isStarted], by simp [update, hidle]⟩
    | true => exact ⟨hno, by simp [update, CallerPc.gaveUp], by simp [update, CallerPc.gaveUp]⟩
  | dispatchThrew | waitSignaled =>
    exact ⟨hno, by simp [update, CallerPc.gaveUp], by simp [update, CallerPc.gaveUp]⟩
  | waitTimeout =>
    rcases hg with ⟨hwait, hsig, -⟩
    have hout : c.invoke.holdsLock = false := by
      by_contra hin
      exact hok (hl.workerLock.mpr (by simpa using hin))
    have hquiet := hr.not_signaled hwait hsig
    refine ⟨hno, fun _ => ?_, fun _ hpc => ?_⟩
    · -- outside of the lock and before the signal the target has not begun
      show c.invoke.isStarted = false
      cases hpc : c.invoke <;>
        simp_all [InvokePc.isStarted, InvokePc.holdsLock, InvokePc.isSignaled]
    · have hpc : c.invoke = .locked := hpc
      simp [hpc, InvokePc.holdsLock] at hout
  | callerLock waited =>
    rcases hg with ⟨hpc, hfree⟩
    -- taking the lock does not change whether the caller has given up
    have hgave' : (CallerPc.locked waited : CallerPc V).gaveUp = c.caller.gaveUp := by
      rw [hpc]
      cases waited <;> rfl
    refine ⟨hno, fun h => hgave (hgave' ▸ h), fun _ hinv => ?_⟩
    have hinv : c.invoke = .locked := hinv
    have hlock := hl.workerLock.mpr (by simp [hinv, InvokePc.holdsLock])
    rw [hfree] at hlock
    cases hlock
  | callerRead waited =>
    have hpc : c.caller = .locked waited := hg
    have hout : c.invoke.holdsLock = false := hl.exclusive (by simp [hpc, CallerPc.holdsLock])
    have hnot : c.invoke ≠ .locked := by
      intro hinv
      simp [hinv, InvokePc.holdsLock] at hout
    cases waited with
    | false =>
      have hgave' := hgave (by simp [hpc, CallerPc.gaveUp])
      exact ⟨hno, fun _ => hgave', fun _ hinv => absurd hinv hnot⟩
    | true =>
      -- a signal without an exception reports success
      have hsig := hr.taken (Or.inr hpc)
      have hdone : c.invoke = .done := by
        cases hinv : c.invoke <;> simp_all [InvokePc.holdsLock, InvokePc.isSignaled]
      have hsucc := hr.succeeded.mpr (Or.inr (Or.inr hdone))
      exact ⟨hno, by simp [update, CallerPc.gaveUp, hsucc], fun _ hinv => absurd hinv hnot⟩
  | callerClear success retVal =>
    have hpc : c.caller = .read success retVal := hg
    have hgave' : c.caller.gaveUp = !success := by rw [hpc, CallerPc.gaveUp]
    exact ⟨hno, fun h => hgave (hgave'.trans h), fun _ _ => rfl⟩
  | callerUnlock success retVal =>
    have hpc : c.caller = .cleared success retVal := hg
    have hgave' : c.caller.gaveUp = !success := by rw [hpc, CallerPc.gaveUp]
    exact ⟨hno, fun h => hgave (hgave'.trans h), fun _ _ => rfl⟩
  | enter => exact ⟨by simp [update], by simp [update, InvokePc.isStarted], by simp [update]⟩
  | workerLock =>
    rcases hg with ⟨hpc, hfree⟩
    refine ⟨by simp [update], by simp [update, InvokePc.isStarted], fun h _ => ?_⟩
    show c.caller.isCleared = true
    -- the lock is free, so a caller that has given up is before it or past it
    have hout : c.caller.holdsLock = false := by
      by_contra hin
      have hlock := hl.callerLock.mpr (by simpa using hin)
      rw [hfree] at hlock
      cases hlock
    have hgave' : c.caller.gaveUp = true := h
    cases hcaller : c.caller with
    | locking waited => cases waited <;> simp_all [CallerPc.gaveUp, OnTime]
    | _ => simp_all [CallerPc.gaveUp, CallerPc.holdsLock, CallerPc.isCleared]
  | workerCheck =>
    have hpc : c.invoke = .locked := hg
    simp only [update]
    split
    · rename_i hwait
      -- a caller that had given up would have cleared `InvokerWaiting`
      have hup : c.caller.gaveUp = false := by
        by_contra hup
        have hcl := hl.cleared.mpr (hlocked (by simpa using hup) hpc)
        rw [hwait] at hcl
        cases hcl
      exact ⟨by simp, fun h => by simp [hup] at h, by simp⟩
    · exact ⟨by simp, fun _ => rfl, by simp⟩
  | targetReturn v =>
    have hpc : c.invoke = .running := hg
    have hup := hstay (by simp [hpc, InvokePc.isStarted])
    exact ⟨by simp [update], fun h => by simp [update, hup] at h, by simp [update]⟩
  | targetThrow => exact hthrow.elim
  | setSucceeded =>
    have hpc : c.invoke = .assigned := hg
    have hup := hstay (by simp [hpc, InvokePc.isStarted])
    exact ⟨by simp [update], fun h => by simp [update, hup] at h, by simp [update]⟩
  | signal =>
    rcases hg with hpc | hpc
    · have hup := hstay (by simp [hpc, InvokePc.isStarted])
      refine ⟨by simp [update, hpc, InvokePc.afterSignal], fun h => ?_, fun _ hinv => ?_⟩
      · simp [update, hup] at h
      · simp [update, hpc, InvokePc.afterSignal] at hinv
    · exact absurd hpc hno.1
  | workerUnlock =>
    rcases hg with hpc | hpc | hpc
    · have hup := hstay (by simp [hpc, InvokePc.isStarted])
      refine ⟨by simp [update, hpc, InvokePc.afterUnlock], fun h => ?_, fun _ hinv => ?_⟩
      · simp [update, hup] at h
      · simp [update, hpc, InvokePc.afterUnlock] at hinv
    · exact absurd hpc hno.2.1
    · refine ⟨by simp [update, hpc, InvokePc.afterUnlock], fun _ => ?_, fun _ hinv => ?_⟩
      · simp [update, hpc, InvokePc.afterUnlock, InvokePc.isStarted]
      · simp [update, hpc, InvokePc.afterUnlock] at hinv

theorem onTime_of_reachable
    (h : (waitLts V).ReachableWhen (fun l c => OnTime l c ∧ NoThrow l c) c) : OnTimeInv c := by
  refine h.induct ?_ ?_
  · rintro c ⟨forever, rfl⟩
    constructor <;> simp [WaitCall.initial, CallerPc.gaveUp]
  · intro l c hr hg hok hi
    exact hi.step hg.1 hg.2 hok.1 hok.2 (lock_of_reachable hr) (report_of_reachable hr)

/-- In time, an empty result means that the target has not been started. -/
theorem OnTimeInv.empty [Inhabited V] (hl : LockInv c) (hi : OnTimeInv c) {success : Bool}
    {retVal : Option V} (hret : c.caller = .returned success retVal)
    (hnone : asyncInvoke success retVal = none) : c.starts = 0 := by
  have hs : success = false := by
    by_contra hs
    simp [asyncInvoke, hs] at hnone
  have hst := hi.gaveUp (by simp [hret, hs, CallerPc.gaveUp])
  rw [hl.count, hst]
  rfl

/-! ## A caller that is released -/

/-- The wait does not time out while the worker is on its way into the target or
inside it, and the worker does not lock the message of a caller that has given
up and has not locked it. -/
def Prompt : WaitLabel V → WaitCall V → Prop
  | .waitTimeout, c => c.invoke ≠ .locked ∧ c.invoke ≠ .running
  | .workerLock, c => c.caller ≠ .locking false
  | _, _ => True

instance [DecidableEq V] (l : WaitLabel V) (c : WaitCall V) : Decidable (Prompt l c) := by
  cases l <;> simp only [Prompt] <;> infer_instance

/-- A caller that has given up does not find the worker on its way to the
target. -/
def PromptInv (c : WaitCall V) : Prop :=
  c.caller = .locking false → c.invoke ≠ .locked ∧ c.invoke ≠ .running

theorem PromptInv.step (hg : guard l c) (hct : contract l c) (hok : Prompt l c)
    (hi : PromptInv c) : PromptInv (update l c) := by
  intro hpc
  cases l with
  | dispatched ok =>
    cases ok with
    | false =>
      have hidle : c.invoke = .idle := hct
      simp [update, hidle]
    | true => cases hpc
  | waitTimeout => exact hok
  | dispatchThrew | waitSignaled | callerLock _ | callerClear _ _ | callerUnlock _ _ => cases hpc
  | callerRead waited => cases waited <;> cases hpc
  -- the two steps that `Prompt` speaks of
  | workerLock => exact absurd hpc hok
  | workerCheck =>
    have hinv : c.invoke = .locked := hg
    simp only [update] at hpc
    split at hpc <;> exact absurd hinv (hi hpc).1
  | enter | targetReturn _ | targetThrow | setSucceeded => simp [update]
  | signal => rcases hg with h | h <;> simp [update, h, InvokePc.afterSignal]
  | workerUnlock => rcases hg with h | h | h <;> simp [update, h, InvokePc.afterUnlock]

/-- In runs without such a step no caller is blocked behind its target. -/
theorem not_blocked (h : (waitLts V).ReachableWhen Prompt c) : ¬ Blocked c := by
  have hi : PromptInv c := by
    refine h.induct ?_ ?_
    · rintro c ⟨forever, rfl⟩ hpc
      cases hpc
    · intro l c _ hg hok hi
      exact hi.step hg.1 hg.2 hok
  rintro ⟨hpc, -, hrun⟩
  exact (hi hpc).2 hrun

end WaitCall

end AsyncSqlite
