import AsyncSqlite.Heap.Shared
import AsyncSqlite.Thread.Custody

/-!
# AsyncSqlite.Timer.Delegate — `TimerDelegate` and its target thread

The delegates that `MakeTimerDelegate` of `extras/util/TimerDelegate.h` makes,
in the signals of any number of timers, with `ProcessTimers` that calls them
and the one thread that all of them target.

Reading guide:

* `Connect` clones its delegate; the clone is numbered, and `made k` is what the
  `k`-th call was given. A clone is owned by the list of its signal, by its
  connection, and by the snapshots in `ProcessTimers` (`owned`).
* `operator()` makes a token and a message of the same number. Who holds a
  `shared_ptr` to them is recorded, so a message is destroyed, and its token
  with it, when its last owner lets go.
* One thread runs `ProcessTimers`. Everything else interleaves with it freely:
  connections, the target thread, and all other callers of `DispatchDelegate`.
  What `OnStuck` and the target function do are such steps too.
* The signals of a snapshot are locked one after the other (`getSnapshot`).
  Which timers have expired is the choice of the label.
* Delegates for other target threads do not touch this one and are left out.
-/

namespace AsyncSqlite

/-! ## `PacedDispatch` -/

/-- Who holds a `shared_ptr` to a message of `operator()`. -/
inductive MsgOwner where
  /-- `operator()` and `DispatchDelegate` -/
  | call
  /-- the entry in a queue, or in the hand of the worker -/
  | threadMsg
  /-- `Process`, in `Invoke` -/
  | handler
deriving DecidableEq, Repr

/-- Who holds a `shared_ptr` to a token behind `TryFire`. -/
inductive TokenOwner where
  /-- the argument tuple of the message -/
  | message
  /-- the arguments of `InvokeTarget` -/
  | handler
deriving DecidableEq, Repr

structure PacedDispatch where
  /-- `m_inFlight` -/
  inFlight : Option ℕ
  dispatchTime : ℕ
  pending : Bool
deriving DecidableEq, Repr

namespace PacedDispatch

def initial : PacedDispatch := ⟨none, 0, false⟩

/-- `!m_inFlight.expired()`. -/
def isInFlight (g : PacedDispatch) (token : Owners ℕ TokenOwner) : Prop :=
  ∃ t ∈ g.inFlight, ¬ token.expired t

instance (g : PacedDispatch) (token : Owners ℕ TokenOwner) : Decidable (g.isInFlight token) :=
  inferInstanceAs (Decidable (∃ t ∈ g.inFlight, ¬ token.expired t))

end PacedDispatch

/-- What `TryFire` leaves and returns, and whether it called `OnStuck`. -/
structure TryFire where
  gate : PacedDispatch
  fired : Bool
  onStuck : Bool

structure TimerDelegate where
  /-- `m_stuckTimeout` -/
  stuckTimeout : ℕ
  /-- `m_gate.OnStuck` is not empty -/
  onStuck : Bool
  /-- `m_gate` -/
  gate : PacedDispatch
deriving DecidableEq, Repr

namespace TimerDelegate

/-- The copy constructor: the clone starts with a fresh gate. -/
def clone (d : TimerDelegate) : TimerDelegate := { d with gate := .initial }

/-- `m_gate.TryFire(…, m_stuckTimeout)`; the token that it would make is `i`. -/
def tryFire (d : TimerDelegate) (token : Owners ℕ TokenOwner) (i now : ℕ) : TryFire :=
  if d.gate.isInFlight token then
    { gate := { d.gate with pending := true }
      fired := false
      onStuck := 0 < d.stuckTimeout && d.onStuck && d.stuckTimeout < now - d.gate.dispatchTime }
  else
    { gate := { inFlight := some i, dispatchTime := now, pending := false }
      fired := true
      onStuck := false }

end TimerDelegate

/-- The message of the number `i` that `operator()` dispatches. -/
def tickMsg (i : ℕ) : DelegateMsg := ⟨i, true, .normal⟩

/-! ## State -/

/-- A `ScopedConnection`. -/
inductive HandlePc where
  | none
  | connected
  /-- in `Disconnect`, behind `DisconnectImpl` -/
  | removed
deriving DecidableEq, Repr

/-- Where `ProcessTimers` is; the snapshots that it holds are kept apart. -/
inductive TimersPc where
  | idle
  /-- in the locked part -/
  | collecting
  /-- in `InvokeSnapshot`, with the delegates that it has not called -/
  | invoking (rest : List ℕ)
  /-- in `operator()` of the clone `k`, which dispatches the message `i` -/
  | dispatching (k i : ℕ) (rest : List ℕ)
deriving DecidableEq, Repr

/-- The clone whose `operator()` is dispatching, and its message. -/
def TimersPc.call : TimersPc → Option (ℕ × ℕ)
  | .dispatching k i _ => some (k, i)
  | _ => none

structure PacedSys where
  thread : ThreadState
  /-- the clones -/
  delegate : ℕ → TimerDelegate
  clones : ℕ
  /-- the timer to whose signal a clone was connected -/
  timer : ℕ → ℕ
  /-- the delegates in the signal of each timer -/
  delegates : ℕ → List ℕ
  /-- the connections, by their clones -/
  handle : ℕ → HandlePc
  timers : TimersPc
  /-- the snapshots that `ProcessTimers` holds, the one in use first -/
  snapshots : List (List ℕ)
  /-- the clone that a message of `operator()` refers to -/
  source : ℕ → Option ℕ
  msg : Owners ℕ MsgOwner
  token : Owners ℕ TokenOwner
  /-- messages whose handler threw; `Process` stays in its `catch` with them -/
  thrown : List ℕ

namespace PacedSys

def initial (made : ℕ → TimerDelegate) : PacedSys where
  thread := .initial
  delegate := fun k => (made k).clone
  clones := 0
  timer := fun _ => 0
  delegates := fun _ => []
  handle := fun _ => .none
  timers := .idle
  snapshots := []
  source := fun _ => none
  msg := fun _ => ∅
  token := fun _ => ∅
  thrown := []

/-! ## Who owns a clone -/

def listed (s : PacedSys) (k : ℕ) : Prop := k ∈ s.delegates (s.timer k)

def snapped (snapshots : List (List ℕ)) (k : ℕ) : Prop := ∃ ds ∈ snapshots, k ∈ ds

instance (s : PacedSys) (k : ℕ) : Decidable (s.listed k) := inferInstanceAs (Decidable (_ ∈ _))

instance (snapshots : List (List ℕ)) (k : ℕ) : Decidable (snapped snapshots k) :=
  inferInstanceAs (Decidable (∃ ds ∈ snapshots, k ∈ ds))

/-- The clone has an owner: it is not destroyed. -/
def owned (s : PacedSys) (k : ℕ) : Prop :=
  s.listed k ∨ s.handle k ≠ .none ∨ snapped s.snapshots k

instance (s : PacedSys) (k : ℕ) : Decidable (s.owned k) := inferInstanceAs (Decidable (_ ∨ _))

/-! ## The operations -/

/-- `Connect` on the timer `σ`. -/
def connect (s : PacedSys) (σ : ℕ) : PacedSys :=
  { s with
    clones := s.clones + 1
    timer := Function.update s.timer s.clones σ
    delegates := Function.update s.delegates σ (s.delegates σ ++ [s.clones])
    handle := Function.update s.handle s.clones .connected }

/-- `DisconnectImpl` of the connection of the clone `k`. -/
def disconnectImpl (s : PacedSys) (k : ℕ) : PacedSys :=
  { s with
    delegates := Function.update s.delegates (s.timer k)
      ((s.delegates (s.timer k)).filter (· ≠ k))
    handle := Function.update s.handle k .removed }

/-- `Clear` or the destructor of a signal. -/
def clear (s : PacedSys) (σ : ℕ) : PacedSys :=
  { s with delegates := Function.update s.delegates σ [] }

/-- An owner of these messages lets go; a message without an owner is destroyed,
and with it the token in its arguments. -/
def letGo (s : PacedSys) (is : List ℕ) (w : MsgOwner) : PacedSys :=
  let msg := s.msg.release is w
  { s with msg := msg, token := s.token.release (is.filter fun i => msg.expired i) .message }

/-- What an event in the target thread does to the owners. -/
def apply (s : PacedSys) : ThreadState.CustodyEvent → PacedSys
  | .none => s
  | .post m => { s with msg := s.msg.copy m.id .call .threadMsg }
  | .enter m =>
    { s with
      msg := s.msg.copy m.id .threadMsg .handler
      token := s.token.copy m.id .message .handler }
  | .leave m =>
    -- the arguments, the locals of `Process`, and then the entry
    ({ s with token := s.token.release [m.id] .handler }.letGo [m.id] .handler).letGo [m.id]
      .threadMsg
  | .unwind m =>
    { s with
      token := s.token.release [m.id] .handler
      thrown := if (s.source m.id).isSome then m.id :: s.thrown else s.thrown }
  | .clear ms => s.letGo (ms.map (·.id)) .threadMsg

/-- `operator()` of the clone `k`, up to `DispatchDelegate` if it fires. -/
def operatorCall (s : PacedSys) (k i now : ℕ) (rest : List ℕ) : PacedSys :=
  let d := s.delegate k
  let r := d.tryFire s.token i now
  let s' := { s with delegate := Function.update s.delegate k { d with gate := r.gate } }
  if r.fired then
    { s' with
      timers := .dispatching k i rest
      source := Function.update s.source i (some k)
      msg := s.msg.create i .call
      token := s.token.create i .message }
  else { s' with timers := .invoking rest }

/-- The next snapshot, or the end of `ProcessTimers`. -/
def nextPc : List (List ℕ) → TimersPc
  | [] => .idle
  | ds :: _ => .invoking ds

/-- `operator()` returns behind `DispatchDelegate`, or is left by an exception,
which also leaves `ProcessTimers`. -/
def tickReturn (s : PacedSys) : PacedSys :=
  match s.timers with
  | .dispatching _ i rest =>
    match s.thread.dispatch i with
    | .threw _ => { s.letGo [i] .call with timers := .idle, snapshots := [] }
    | _ => { s.letGo [i] .call with timers := .invoking rest }
  | _ => s

/-- `DispatchDelegate` has ended. -/
def callDone (s : PacedSys) : Prop :=
  match s.timers with
  | .dispatching _ i _ =>
    match s.thread.dispatch i with
    | .returned _ _ | .threw _ => True
    | _ => False
  | _ => False

instance (s : PacedSys) : Decidable s.callDone := by
  unfold callDone
  split
  · split <;> infer_instance
  · infer_instance

/-- The delegate that `InvokeSnapshot` calls next. -/
def next (s : PacedSys) : Option ℕ :=
  match s.timers with
  | .invoking (k :: _) => some k
  | _ => none

def tick (s : PacedSys) (i now : ℕ) : PacedSys :=
  match s.timers with
  | .invoking (k :: rest) => s.operatorCall k i now rest
  | _ => s

/-- A step of the target thread, or of a call of its `DispatchDelegate`. -/
def threadStep (cfg : Config) (s : PacedSys) (l : ThreadLabel) : PacedSys :=
  { s.apply (ThreadState.event cfg l s.thread) with thread := ThreadState.update cfg l s.thread }

/-- A message of `operator()` is dispatched by it alone. -/
def mayDispatch (s : PacedSys) : ThreadLabel → Prop
  | .dispatchDelegate m => s.source m.id = none ∨ m = tickMsg m.id
  | _ => True

instance (s : PacedSys) (l : ThreadLabel) : Decidable (s.mayDispatch l) := by
  induction l using ThreadLabel.casesOn <;> dsimp only [mayDispatch] <;> infer_instance

end PacedSys

/-! ## The transition system -/

inductive PacedLabel where
  | thread (l : ThreadLabel)
  | connect (timer : ℕ)
  /-- `Disconnect`, or the destructor of the connection -/
  | disconnectImpl (k : ℕ)
  /-- `m_ctx2.reset()` -/
  | disconnectReset (k : ℕ)
  | clear (timer : ℕ)
  | processTimers
  | getSnapshot (timer : ℕ)
  /-- the locked part of `ProcessTimers` ends -/
  | unlock
  /-- `operator()` of the next delegate, at time `now` -/
  | tick (i now : ℕ)
  | tickReturn
  /-- `snapshots[i] = {}` -/
  | release
deriving DecidableEq, Repr

namespace PacedSys

def guard : PacedLabel → PacedSys → Prop
  | .thread l, s => ThreadState.guard l s.thread ∧ s.mayDispatch l
  | .connect _, _ => True
  | .disconnectImpl k, s => s.handle k = .connected
  | .disconnectReset k, s => s.handle k = .removed
  | .clear _, _ => True
  | .processTimers, s => s.timers = .idle
  | .getSnapshot _, s => s.timers = .collecting
  | .unlock, s => s.timers = .collecting
  | .tick i _, s => s.next ≠ none ∧ s.source i = none ∧ s.thread.dispatch i = .idle
  | .tickReturn, s => s.callDone
  | .release, s => s.timers = .invoking []

def update (cfg : Config) : PacedLabel → PacedSys → PacedSys
  | .thread l, s => s.threadStep cfg l
  | .connect σ, s => s.connect σ
  | .disconnectImpl k, s => s.disconnectImpl k
  | .disconnectReset k, s => { s with handle := Function.update s.handle k .none }
  | .clear σ, s => s.clear σ
  | .processTimers, s => { s with timers := .collecting }
  | .getSnapshot σ, s => { s with snapshots := s.snapshots ++ [s.delegates σ] }
  | .unlock, s => { s with timers := nextPc s.snapshots }
  | .tick i now, s => s.tick i now
  | .tickReturn, s => s.tickReturn
  | .release, s => { s with snapshots := s.snapshots.tail, timers := nextPc s.snapshots.tail }

instance (l : PacedLabel) (s : PacedSys) : Decidable (guard l s) := by
  cases l <;> simp only [guard] <;> infer_instance

end PacedSys

/-- The delegates made by `made`, on a target thread of this configuration. -/
def pacedLts (cfg : Config) (made : ℕ → TimerDelegate) : Lts PacedSys PacedLabel where
  init := fun s => s = PacedSys.initial made
  guard := PacedSys.guard
  update := PacedSys.update cfg

instance (cfg : Config) (made : ℕ → TimerDelegate) (l : PacedLabel) (s : PacedSys) :
    Decidable ((pacedLts cfg made).guard l s) :=
  inferInstanceAs (Decidable (PacedSys.guard l s))

end AsyncSqlite
