import AsyncSqlite.Lts.Core
import Mathlib.Data.List.Basic
import Mathlib.Tactic.Common

/-!
# AsyncSqlite.Delegate.AsyncFuture — one call of the future helper

The two sides of `AsyncInvokeFuture` in `SQLite/async_sqlite3.cpp` for one
call: the caller (make the promise, check the thread, dispatch a non-blocking
delegate, return the future) and the task on the worker (run the target, settle
the promise).

The promise is shared by the locals of `AsyncInvokeFuture`, by the task inside
the delegate, and through it by the message. When the last of them is gone and
nothing was stored, the future holds `broken_promise` (`FutureCall.result`).
-/

namespace AsyncSqlite

universe u

/-- What a future can hold. -/
inductive Outcome (V : Type u) where
  | value (v : V)
  /-- the exception of the target -/
  | exception
  /-- `std::runtime_error`: the thread is not running -/
  | notRunning
  /-- `std::future_error`: broken promise -/
  | brokenPromise
deriving DecidableEq, Repr

/-- A target can be left with it. -/
def Outcome.OfTarget {V : Type u} : Outcome V → Prop
  | .value _ | .exception => True
  | .notRunning | .brokenPromise => False

/-- Where `AsyncInvokeFuture` is. -/
inductive FuturePc where
  /-- in `DispatchDelegate` -/
  | dispatching
  /-- `DispatchDelegate` has returned; the locals still hold the promise -/
  | returning
  | returned
  /-- left by `std::invalid_argument` -/
  | threw
deriving DecidableEq, Repr

/-- Where the task is. -/
inductive TaskPc (V : Type u) where
  | idle
  /-- in `Invoke`, before the target -/
  | entered
  | running
  /-- the target was left with this outcome, the promise is not yet set -/
  | leaving (o : Outcome V)
  | done
deriving DecidableEq, Repr

structure FutureCall (V : Type u) where
  caller : FuturePc
  task : TaskPc V
  /-- history: what the promise was set to, in order -/
  settled : List (Outcome V)
  /-- history: how the target was left -/
  produced : List (Outcome V)
deriving DecidableEq, Repr

inductive FutureLabel (V : Type u) where
  | dispatched
  | dispatchThrew
  | ret
  | enter
  | run
  | targetReturn (v : V)
  | targetThrow
  | settle (o : Outcome V)
deriving DecidableEq, Repr

namespace FutureCall

variable {V : Type u}

/-- Behind a thread id that is not the default one. -/
def initial : FutureCall V := ⟨.dispatching, .idle, [], []⟩

/-- `GetThreadId() == std::thread::id()`: the promise holds a `runtime_error`
and no message is made. -/
def notRunning : FutureCall V := ⟨.returned, .idle, [.notRunning], []⟩

/-- `GetThreadId` has thrown. -/
def refused : FutureCall V := ⟨.threw, .idle, [], []⟩

def guard : FutureLabel V → FutureCall V → Prop
  | .dispatched, c => c.caller = .dispatching
  | .dispatchThrew, c => c.caller = .dispatching
  | .ret, c => c.caller = .returning
  | .enter, _ => True
  | .run, c => c.task = .entered
  | .targetReturn _, c => c.task = .running
  | .targetThrow, c => c.task = .running
  | .settle o, c => c.task = .leaving o

instance (l : FutureLabel V) (c : FutureCall V) [DecidableEq V] : Decidable (guard l c) := by
  cases l <;> simp only [guard] <;> infer_instance

def update : FutureLabel V → FutureCall V → FutureCall V
  | .dispatched, c => { c with caller := .returning }
  | .dispatchThrew, c => { c with caller := .threw }
  | .ret, c => { c with caller := .returned }
  | .enter, c => { c with task := .entered }
  | .run, c => { c with task := .running }
  | .targetReturn v, c =>
    { c with task := .leaving (.value v), produced := c.produced ++ [.value v] }
  | .targetThrow, c =>
    { c with task := .leaving .exception, produced := c.produced ++ [.exception] }
  | .settle o, c => { c with task := .done, settled := c.settled ++ [o] }

/-- What the thread owes to the call: its message exists only behind the check
of the thread id, and is invoked once. -/
def contract : FutureLabel V → FutureCall V → Prop
  | .enter, c => c.task = .idle ∧ c.settled = []
  | _, _ => True

/-- What the future of the call holds; `held` says that the message still
exists. -/
def result (c : FutureCall V) (held : Bool) : Option (Outcome V) :=
  match c.settled with
  | o :: _ => some o
  | [] => if c.caller = .returned ∧ held = false then some .brokenPromise else none

end FutureCall

/-- One call of `AsyncInvokeFuture` against a thread that keeps its contract. -/
def futureLts (V : Type u) : Lts (FutureCall V) (FutureLabel V) where
  init := fun c => c = FutureCall.initial ∨ c = FutureCall.notRunning ∨ c = FutureCall.refused
  guard := fun l c => FutureCall.guard l c ∧ FutureCall.contract l c
  update := FutureCall.update

namespace FutureCall

variable {V : Type u} {c : FutureCall V} {l : FutureLabel V}

/-- The promise is set at most once: by the check of the thread id, or by the
task with the outcome of its one run. -/
def SettleInv (c : FutureCall V) : Prop :=
  match c.task with
  | .idle => c.produced = [] ∧ (c.settled = [] ∨ c.settled = [.notRunning])
  | .entered | .running => c.produced = [] ∧ c.settled = []
  | .leaving o => c.produced = [o] ∧ c.settled = []
  | .done => ∃ o, c.produced = [o] ∧ c.settled = [o]

theorem SettleInv.step (hg : guard l c) (hct : contract l c) (hi : SettleInv c) :
    SettleInv (update l c) := by
  cases l with
  | dispatched | dispatchThrew | ret => exact hi
  | enter =>
    rcases hct with ⟨hidle, hset⟩
    simp only [SettleInv, hidle] at hi
    exact ⟨hi.1, hset⟩
  | run =>
    have hpc : c.task = .entered := hg
    simp only [SettleInv, hpc] at hi
    exact hi
  | targetReturn v =>
    have hpc : c.task = .running := hg
    simp only [SettleInv, hpc] at hi
    simp [SettleInv, update, hi]
  | targetThrow =>
    have hpc : c.task = .running := hg
    simp only [SettleInv, hpc] at hi
    simp [SettleInv, update, hi]
  | settle o =>
    have hpc : c.task = .leaving o := hg
    simp only [SettleInv, hpc] at hi
    exact ⟨o, hi.1, by simp [update, hi]⟩

theorem settle_of_reachable {ok : FutureLabel V → FutureCall V → Prop}
    (h : (futureLts V).ReachableWhen ok c) : SettleInv c := by
  refine h.induct ?_ ?_
  · rintro c (rfl | rfl | rfl)
    · exact ⟨rfl, Or.inl rfl⟩
    · exact ⟨rfl, Or.inr rfl⟩
    · exact ⟨rfl, Or.inl rfl⟩
  · intro l c _ hg _ hi
    exact hi.step hg.1 hg.2

theorem SettleInv.length_le (hi : SettleInv c) : c.settled.length ≤ 1 := by
  unfold SettleInv at hi
  split at hi
  · rcases hi.2 with h | h <;> simp [h]
  · simp [hi.2]
  · simp [hi.2]
  · simp [hi.2]
  · rcases hi with ⟨o, -, h⟩
    simp [h]

/-- What is stored stays the result, whatever happens to the references. -/
theorem result_of_settled {o : Outcome V} {rest : List (Outcome V)} (h : c.settled = o :: rest)
    (held : Bool) : c.result held = some o := by
  simp [result, h]

/-- A stored outcome is never replaced. -/
theorem settled_step (hg : guard l c) (hi : SettleInv c) {o : Outcome V}
    (h : c.settled = [o]) : (update l c).settled = [o] := by
  cases l with
  | settle x =>
    have hpc : c.task = .leaving x := hg
    simp only [SettleInv, hpc, h] at hi
    cases hi.2
  | _ => exact h

/-- What the target produced is a value or its exception. -/
theorem ofTarget_of_reachable {ok : FutureLabel V → FutureCall V → Prop}
    (h : (futureLts V).ReachableWhen ok c) : ∀ o ∈ c.produced, o.OfTarget := by
  refine h.induct (P := fun c => ∀ o ∈ c.produced, o.OfTarget) ?_ ?_
  · rintro c (rfl | rfl | rfl) o ho <;> cases ho
  · intro l c _ _ _ hi o ho
    have happend : ∀ x : Outcome V, x.OfTarget → o ∈ c.produced ++ [x] → o.OfTarget := by
      intro x hx hmem
      rcases List.mem_append.mp hmem with hmem | hmem
      · exact hi o hmem
      · rw [List.mem_singleton.mp hmem]
        exact hx
    cases l with
    | targetReturn v => exact happend (.value v) trivial ho
    | targetThrow => exact happend .exception trivial ho
    | dispatched | dispatchThrew | ret | enter | run | settle _ => exact hi o ho

end FutureCall

end AsyncSqlite
