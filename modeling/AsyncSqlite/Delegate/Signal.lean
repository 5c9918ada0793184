import Mathlib.Logic.Function.Basic
import AsyncSqlite.Lts.Run

/-!
# AsyncSqlite.Delegate.Signal — `Signal` and `ScopedConnection`

The signal of `delegate/Signal.h`: its subscriber list lives in a shared state
block, which `Clear` replaces and the destructor marks dead; a connection holds
the block that it was made on, and the clone of its delegate.

Reading guide:

* A critical section is one step. `Clear` has two, and anything may come
  between them (`clearSwap`, `clearMark`).
* A fire takes its snapshot in one step and then invokes one delegate a step.
  Any number of fires are in progress at once, and any operation may come
  between two of their steps: this is what callbacks and other threads do.
* Clones are numbered by `Connect`; the number is the identity of the shared
  pointer, which is what `std::list::remove` compares. `D` is what the delegate
  is, and two clones may be equal there.
* `LiveSignal` says what a signal is for: a list of live subscriptions.
-/

namespace AsyncSqlite

universe u

/-! ## The code -/

/-- `Signal::State`. -/
structure SignalState where
  alive : Bool
  delegates : List ℕ
deriving DecidableEq, Repr

/-- `detail::Connection`. -/
structure Connection where
  /-- `m_ctx1`, the state block -/
  ctx1 : Option ℕ
  /-- `m_ctx2`, the clone -/
  ctx2 : Option ℕ
  /-- `m_disconnect_fn` is not null -/
  disconnectFn : Bool
  connected : Bool
deriving DecidableEq, Repr

/-- A default-constructed connection, and what a move or a disconnect leaves. -/
def Connection.empty : Connection := ⟨none, none, false, false⟩

/-- `Signal::Snapshot`. -/
structure Snapshot where
  smallBuf : ℕ → Option ℕ
  largeBuf : List ℕ
  count : ℕ

namespace Snapshot

/-- The loop `small_buf[i++] = d`. -/
def fill : List ℕ → ℕ → (ℕ → Option ℕ) → ℕ → Option ℕ
  | [], _, buf => buf
  | d :: ds, i, buf => fill ds (i + 1) (Function.update buf i (some d))

/-- `GetSnapshot` on a list of delegates; `sbo` is `SIGNAL_SBO_COUNT`. -/
def take (sbo : ℕ) (delegates : List ℕ) : Snapshot :=
  if delegates.length ≤ sbo then ⟨fill delegates 0 fun _ => none, [], delegates.length⟩
  else ⟨fun _ => none, delegates, delegates.length⟩

/-- The number of rounds of the loop of `InvokeSnapshot`. -/
def rounds (sbo : ℕ) (s : Snapshot) : ℕ := if s.count ≤ sbo then s.count else s.largeBuf.length

/-- The pointer that round `i` of the loop tests and calls. -/
def slot (sbo : ℕ) (s : Snapshot) (i : ℕ) : Option ℕ :=
  if s.count ≤ sbo then s.smallBuf i else s.largeBuf[i]?

end Snapshot

/-- A call of `operator()` behind its snapshot. -/
structure Fire where
  snapshot : Snapshot
  round : ℕ
  /-- history: the clones it has called -/
  invoked : List ℕ

/-- One round of `InvokeSnapshot`. -/
def Fire.next (sbo : ℕ) (f : Fire) : Fire :=
  { f with
    round := f.round + 1
    invoked := f.invoked ++ (f.snapshot.slot sbo f.round).toList }

/-- `InvokeSnapshot` has returned. -/
def Fire.finished (sbo : ℕ) (f : Fire) : Prop := f.snapshot.rounds sbo ≤ f.round

instance (sbo : ℕ) (f : Fire) : Decidable (Fire.finished sbo f) :=
  inferInstanceAs (Decidable (_ ≤ _))

structure Signal (D : Type u) where
  /-- `m_state` -/
  state : ℕ
  /-- the state blocks, by number -/
  block : ℕ → SignalState
  blocks : ℕ
  destroyed : Bool
  /-- the clones that `Connect` made -/
  copies : List D
  /-- the `ScopedConnection` objects -/
  connection : ℕ → Option Connection
  /-- the old blocks of `Clear` calls that have not marked them yet -/
  clearing : List ℕ
  fire : ℕ → Fire
  fires : ℕ

namespace Signal

variable {D : Type u}

def initial : Signal D where
  state := 0
  block := fun _ => ⟨true, []⟩
  blocks := 1
  destroyed := false
  copies := []
  connection := fun _ => none
  clearing := []
  fire := fun _ => ⟨⟨fun _ => none, [], 0⟩, 0, []⟩
  fires := 0

/-- The list that a fire would use. -/
def delegates (s : Signal D) : List ℕ := (s.block s.state).delegates

def setBlock (s : Signal D) (b : ℕ) (v : SignalState) : Signal D :=
  { s with block := Function.update s.block b v }

def setConnection (s : Signal D) (h : ℕ) (c : Option Connection) : Signal D :=
  { s with connection := Function.update s.connection h c }

/-- `IsConnected` of the object `h`. -/
def isConnected (s : Signal D) (h : ℕ) : Bool := (s.connection h).any (·.connected)

/-- `Connect`, whose result is the object `h`. -/
def connect (s : Signal D) (h : ℕ) (d : D) : Signal D :=
  let copy := s.copies.length
  let state := s.block s.state
  ({ s with copies := s.copies ++ [d] }.setBlock s.state
    { state with delegates := state.delegates ++ [copy] }).setConnection h
    (some ⟨some s.state, some copy, true, true⟩)

/-- `DisconnectImpl`. -/
def disconnectImpl (s : Signal D) (state copy : ℕ) : Signal D :=
  if (s.block state).alive then
    s.setBlock state
      { s.block state with delegates := (s.block state).delegates.filter (· ≠ copy) }
  else s

/-- `Connection::Disconnect` on the object `h`. A connection that is connected
has both contexts. -/
def disconnect (s : Signal D) (h : ℕ) : Signal D :=
  match s.connection h with
  | some c =>
    if c.connected then
      let s' := match c.disconnectFn, c.ctx1, c.ctx2 with
        | true, some state, some copy => s.disconnectImpl state copy
        | _, _, _ => s
      s'.setConnection h (some .empty)
    else s
  | none => s

/-- The new object `h` takes over the connection of `other`. -/
def moveConstruct (s : Signal D) (h other : ℕ) : Signal D :=
  (s.setConnection h (s.connection other)).setConnection other (some .empty)

/-- Move assignment of the object `other` to the object `h`. Both the handle
and the connection in it disconnect what `h` had. -/
def moveAssign (s : Signal D) (h other : ℕ) : Signal D :=
  if h = other then s else ((s.disconnect h).disconnect h).moveConstruct h other

/-- The destructor of the object `h`. -/
def destroyConnection (s : Signal D) (h : ℕ) : Signal D := (s.disconnect h).setConnection h none

/-- The first critical section of `Clear`. -/
def clearSwap (s : Signal D) : Signal D :=
  { s.setBlock s.blocks ⟨true, []⟩ with
    state := s.blocks, blocks := s.blocks + 1, clearing := s.state :: s.clearing }

/-- The second one, on the old block. -/
def clearMark (s : Signal D) (old : ℕ) : Signal D :=
  { s.setBlock old ⟨false, []⟩ with clearing := s.clearing.erase old }

/-- `operator()` up to its snapshot. -/
def fireBegin (sbo : ℕ) (s : Signal D) : Signal D :=
  { s with
    fire := Function.update s.fire s.fires ⟨Snapshot.take sbo s.delegates, 0, []⟩
    fires := s.fires + 1 }

/-- `~Signal`. -/
def destroy (s : Signal D) : Signal D := { s.setBlock s.state ⟨false, []⟩ with destroyed := true }

end Signal

/-! ## The transition systems -/

/-- The operations, and the steps of `Clear` and of fires. -/
inductive SignalLabel (D : Type u) where
  /-- a default-constructed `ScopedConnection` -/
  | create (h : ℕ)
  | connect (h : ℕ) (d : D)
  | disconnect (h : ℕ)
  | moveConstruct (h other : ℕ)
  | moveAssign (h other : ℕ)
  | destroyConnection (h : ℕ)
  | clearSwap
  | clearMark (old : ℕ)
  | fire
  | next (i : ℕ)
  | destroy

namespace Signal

variable {D : Type u}

/-- Objects are constructed once and destroyed once, and a destroyed signal is
not used; its connections and the fires in progress may be. -/
def guard (sbo : ℕ) : SignalLabel D → Signal D → Prop
  | .create h, s => (s.connection h).isNone = true
  | .connect h _, s => s.destroyed = false ∧ (s.connection h).isNone = true
  | .disconnect h, s => (s.connection h).isSome = true
  | .moveConstruct h other, s => (s.connection h).isNone = true ∧ (s.connection other).isSome = true
  | .moveAssign h other, s => (s.connection h).isSome = true ∧ (s.connection other).isSome = true
  | .destroyConnection h, s => (s.connection h).isSome = true
  | .clearSwap, s => s.destroyed = false
  | .clearMark old, s => old ∈ s.clearing
  | .fire, s => s.destroyed = false
  | .next i, s => i < s.fires ∧ ¬ (s.fire i).finished sbo
  | .destroy, s => s.destroyed = false

def update (sbo : ℕ) : SignalLabel D → Signal D → Signal D
  | .create h, s => s.setConnection h (some .empty)
  | .connect h d, s => s.connect h d
  | .disconnect h, s => s.disconnect h
  | .moveConstruct h other, s => s.moveConstruct h other
  | .moveAssign h other, s => s.moveAssign h other
  | .destroyConnection h, s => s.destroyConnection h
  | .clearSwap, s => s.clearSwap
  | .clearMark old, s => s.clearMark old
  | .fire, s => s.fireBegin sbo
  | .next i, s => { s with fire := Function.update s.fire i ((s.fire i).next sbo) }
  | .destroy, s => s.destroy

instance (sbo : ℕ) (l : SignalLabel D) (s : Signal D) : Decidable (guard sbo l s) := by
  cases l <;> simp only [guard] <;> infer_instance

end Signal

/-- One signal, for any limit of the small buffer. -/
def signalLts (D : Type u) (sbo : ℕ) : Lts (Signal D) (SignalLabel D) where
  init := fun s => s = Signal.initial
  guard := Signal.guard sbo
  update := Signal.update sbo

instance {D : Type u} (sbo : ℕ) (l : SignalLabel D) (s : Signal D) :
    Decidable ((signalLts D sbo).guard l s) :=
  inferInstanceAs (Decidable (Signal.guard sbo l s))

/-! ## What a signal is for -/

/-- A fire: what was subscribed when it began, and what it has invoked. -/
structure LiveFire where
  snapshot : List ℕ
  invoked : List ℕ

/-- A list of live subscriptions, numbered in the order of their connection. -/
structure LiveSignal (D : Type u) where
  live : List ℕ
  /-- the delegates of all subscriptions ever made -/
  subscribed : List D
  /-- the handles, with the subscription that they hold -/
  holder : ℕ → Option (Option ℕ)
  destroyed : Bool
  fire : ℕ → LiveFire
  fires : ℕ

namespace LiveSignal

variable {D : Type u}

def initial : LiveSignal D := ⟨[], [], fun _ => none, false, fun _ => ⟨[], []⟩, 0⟩

def setHolder (a : LiveSignal D) (h : ℕ) (x : Option (Option ℕ)) : LiveSignal D :=
  { a with holder := Function.update a.holder h x }

def connect (a : LiveSignal D) (h : ℕ) (d : D) : LiveSignal D :=
  { a.setHolder h (some (some a.subscribed.length)) with
    live := a.live ++ [a.subscribed.length], subscribed := a.subscribed ++ [d] }

/-- Exactly the subscription of the handle goes. -/
def disconnect (a : LiveSignal D) (h : ℕ) : LiveSignal D :=
  match a.holder h with
  | some (some n) => { a.setHolder h (some none) with live := a.live.filter (· ≠ n) }
  | _ => a

def moveConstruct (a : LiveSignal D) (h other : ℕ) : LiveSignal D :=
  (a.setHolder h (a.holder other)).setHolder other (some none)

def guard : SignalLabel D → LiveSignal D → Prop
  | .create h, a => a.holder h = none
  | .connect h _, a => a.destroyed = false ∧ a.holder h = none
  | .disconnect h, a => a.holder h ≠ none
  | .moveConstruct h other, a => a.holder h = none ∧ a.holder other ≠ none
  | .moveAssign h other, a => a.holder h ≠ none ∧ a.holder other ≠ none
  | .destroyConnection h, a => a.holder h ≠ none
  | .clearSwap, a => a.destroyed = false
  | .clearMark _, _ => True
  | .fire, a => a.destroyed = false
  | .next i, a => i < a.fires ∧ (a.fire i).invoked.length < (a.fire i).snapshot.length
  | .destroy, a => a.destroyed = false

def update : SignalLabel D → LiveSignal D → LiveSignal D
  | .create h, a => a.setHolder h (some none)
  | .connect h d, a => a.connect h d
  | .disconnect h, a => a.disconnect h
  | .moveConstruct h other, a => a.moveConstruct h other
  | .moveAssign h other, a => if h = other then a else (a.disconnect h).moveConstruct h other
  | .destroyConnection h, a => (a.disconnect h).setHolder h none
  | .clearSwap, a => { a with live := [] }
  | .clearMark _, a => a
  | .fire, a =>
    { a with fire := Function.update a.fire a.fires ⟨a.live, []⟩, fires := a.fires + 1 }
  | .next i, a =>
    { a with
      fire := Function.update a.fire i
        { a.fire i with
          invoked := (a.fire i).snapshot.take ((a.fire i).invoked.length + 1) } }
  | .destroy, a => { a with live := [], destroyed := true }

end LiveSignal

def liveLts (D : Type u) : Lts (LiveSignal D) (SignalLabel D) where
  init := fun a => a = LiveSignal.initial
  guard := LiveSignal.guard
  update := LiveSignal.update

end AsyncSqlite
