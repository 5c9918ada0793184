import Mathlib.Data.List.ReduceOption
import Mathlib.Logic.Function.Basic
import AsyncSqlite.Lts.Core

/-!
# AsyncSqlite.Delegate.Multicast — `MulticastDelegate`

The container of `delegate/MulticastDelegate.h` with broadcasts that nest. A
callback may do anything to the container that is broadcasting it: broadcast
again, `+=`, `-=`, `Clear`, assign, throw.

Reading guide:

* The container is not thread-safe, so the steps of one container are those of
  one call stack: `passes` holds the calls of `operator()` in progress,
  innermost first, and only the innermost one moves. Everything else that is
  done to a container is done by nobody's callback or by the callback that the
  innermost pass is running (`mayAct`).
* A `std::list` iterator is a position. Positions stay meaningful while a pass
  is in progress because every operation then only nulls entries or appends;
  the branches that erase are taken without a pass.
* `registry` is the specification, an ordinary list of what was added and not
  removed. It is kept beside the code's own fields, and no operation reads it.
-/

namespace AsyncSqlite

universe u

/-- A delegate added to a container. `id` numbers the additions to it. -/
structure Registration (D : Type u) where
  id : ℕ
  delegate : D
deriving DecidableEq, Repr

/-! ## What the container is for -/

/-- The live registrations, in registration order. -/
structure Registry (D : Type u) where
  live : List (Registration D)
  added : ℕ

namespace Registry

variable {D : Type u}

def empty : Registry D := ⟨[], 0⟩

def insert (r : Registry D) (d : D) : Registry D :=
  ⟨r.live ++ [⟨r.added, d⟩], r.added + 1⟩

/-- The oldest live registration of an equal delegate goes. -/
def remove (equal : D → D → Bool) (r : Registry D) (d : D) : Registry D :=
  { r with live := r.live.eraseP fun x => equal x.delegate d }

def clear (r : Registry D) : Registry D := { r with live := [] }

/-- Assignment: the registrations are replaced by new ones, of the delegates
that are live in the other list. -/
def assign (r other : Registry D) : Registry D :=
  (other.live.map (·.delegate)).foldl insert r.clear

end Registry

/-! ## The container -/

/-- A call of `operator()` in progress. -/
structure Pass (D : Type u) where
  /-- the iterator -/
  it : ℕ
  /-- the local copy of the entry while its target runs -/
  delegate : Option (Registration D)
  /-- history: the registrations that were live when the pass began -/
  started : List (Registration D)
  /-- history: what the pass has invoked -/
  invoked : List (Registration D)

structure MulticastDelegate (D : Type u) where
  /-- `m_delegates`, with the shared pointers that were reset as `none` -/
  delegates : List (Option (Registration D))
  /-- `m_broadcastCount` -/
  broadcastCount : ℕ
  /-- `m_cleanup` -/
  cleanup : Bool
  passes : List (Pass D)
  /-- the number of entries ever pushed, which names the next one -/
  added : ℕ
  registry : Registry D

namespace MulticastDelegate

variable {D : Type u}

def initial : MulticastDelegate D := ⟨[], 0, false, [], 0, .empty⟩

/-- `PushBack`. -/
def pushBack (m : MulticastDelegate D) (d : D) : MulticastDelegate D :=
  { m with delegates := m.delegates ++ [some ⟨m.added, d⟩], added := m.added + 1 }

/-- `Remove`: the first entry that is not null and equal. -/
def remove (equal : D → D → Bool) (m : MulticastDelegate D) (d : D) : MulticastDelegate D :=
  match m.delegates.findIdx? fun item => item.any fun x => equal x.delegate d with
  | none => m
  | some k =>
    if 0 < m.broadcastCount then
      { m with delegates := m.delegates.set k none, cleanup := true }
    else
      { m with delegates := m.delegates.eraseIdx k }

/-- `Clear`. -/
def clear (m : MulticastDelegate D) : MulticastDelegate D :=
  if 0 < m.broadcastCount then
    { m with delegates := m.delegates.map fun _ => none, cleanup := true }
  else
    { m with delegates := [] }

/-- `CopyFrom`: a clone of every entry that is not null. -/
def copyFrom (m : MulticastDelegate D) : List (Option (Registration D)) → MulticastDelegate D
  | [] => m
  | none :: other => copyFrom m other
  | some x :: other => copyFrom (m.pushBack x.delegate) other

/-- The entries of another container, moved to the end of this one. A null
entry is moved like any other. -/
def moveFrom (m : MulticastDelegate D) : List (Option (Registration D)) → MulticastDelegate D
  | [] => m
  | none :: other => moveFrom { m with delegates := m.delegates ++ [none] } other
  | some x :: other => moveFrom (m.pushBack x.delegate) other

/-- `operator=(const MulticastDelegate&)` from another container. -/
def copyAssign (m rhs : MulticastDelegate D) : MulticastDelegate D :=
  m.clear.copyFrom rhs.delegates

/-- `operator=(MulticastDelegate&&)` from another container. The two branches
of the source differ in how the entries come over: one by one behind the nulls
that `Clear` left, or as a whole into the list that `Clear` emptied. -/
def moveAssign (m rhs : MulticastDelegate D) : MulticastDelegate D :=
  m.clear.moveFrom rhs.delegates

/-- What a move leaves of the container that it moved from. -/
def movedFrom (m : MulticastDelegate D) : MulticastDelegate D := { m with delegates := [] }

/-- `Size`. -/
def size (m : MulticastDelegate D) : ℕ := m.delegates.length

/-- `Empty`. -/
def isEmpty (m : MulticastDelegate D) : Bool := m.delegates.isEmpty

/-! ## `operator()` -/

/-- The guard of a new pass, and its iterator at `begin()`. -/
def broadcast (m : MulticastDelegate D) : MulticastDelegate D :=
  { m with
    broadcastCount := m.broadcastCount + 1
    passes := ⟨0, none, m.registry.live, []⟩ :: m.passes }

/-- `Cleanup`. -/
def runCleanup (m : MulticastDelegate D) : MulticastDelegate D :=
  if m.cleanup then
    { m with delegates := m.delegates.filter (·.isSome), cleanup := false }
  else m

/-- The destructor of the guard of the innermost pass. -/
def leave (m : MulticastDelegate D) : MulticastDelegate D :=
  let m' := { m with broadcastCount := m.broadcastCount - 1, passes := m.passes.tail }
  if m'.broadcastCount = 0 then m'.runCleanup else m'

/-- Replace the innermost pass. -/
def setPass (m : MulticastDelegate D) (f : Pass D → Pass D) : MulticastDelegate D :=
  { m with passes := m.passes.modifyHead f }

/-- The entry at the iterator of the innermost pass, which is between two
callbacks; `none` at `end()`. -/
def entry (m : MulticastDelegate D) : Option (Option (Registration D)) :=
  match m.passes with
  | p :: _ => if p.delegate.isNone then m.delegates[p.it]? else none
  | [] => none

/-- The body of the loop up to the call of the target. -/
def visit (m : MulticastDelegate D) : MulticastDelegate D :=
  match m.entry with
  | some (some x) => m.setPass fun p => { p with delegate := some x, invoked := p.invoked ++ [x] }
  | some none => m.setPass fun p => { p with it := p.it + 1 }
  | none => m

/-- The target has returned; the iterator moves on. -/
def callbackReturn (m : MulticastDelegate D) : MulticastDelegate D :=
  m.setPass fun p => { p with it := p.it + 1, delegate := none }

/-- The innermost pass is running a target. -/
def inCallback (m : MulticastDelegate D) : Prop :=
  ∃ p ∈ m.passes.head?, p.delegate.isSome = true

/-- The innermost pass has come to `end()`. -/
def atEnd (m : MulticastDelegate D) : Prop :=
  ∃ p ∈ m.passes.head?, p.delegate.isNone = true ∧ p.it = m.delegates.length

/-- Code that may touch the container: there is no pass, or it is the callback
of the innermost one. -/
def mayAct (m : MulticastDelegate D) : Prop := m.passes = [] ∨ m.inCallback

instance (m : MulticastDelegate D) : Decidable m.inCallback := by
  unfold inCallback
  infer_instance

instance (m : MulticastDelegate D) : Decidable m.atEnd := by
  unfold atEnd
  infer_instance

instance (m : MulticastDelegate D) : Decidable m.mayAct :=
  inferInstanceAs (Decidable (_ ∨ _))

/-- Replace the specification's list. -/
def setRegistry (m : MulticastDelegate D) (r : Registry D) : MulticastDelegate D :=
  { m with registry := r }

end MulticastDelegate

/-! ## The transition system -/

/-- The operations and the steps of the container number `i`. -/
inductive MulticastLabel (D : Type u) where
  | insert (i : ℕ) (d : D)
  | remove (i : ℕ) (d : D)
  | clear (i : ℕ)
  | copyAssign (i j : ℕ)
  | moveAssign (i j : ℕ)
  | broadcast (i : ℕ)
  | visit (i : ℕ)
  | callbackReturn (i : ℕ)
  /-- the target is left by an exception, which leaves the pass too -/
  | callbackThrow (i : ℕ)
  /-- the pass is complete -/
  | finish (i : ℕ)

namespace MulticastDelegate

variable {D : Type u}

/-- Moving from a container in the middle of a pass would leave the iterator
of that pass in the list of another container, so such a move has no defined
behaviour; copying from one has. -/
def guard : MulticastLabel D → (ℕ → MulticastDelegate D) → Prop
  | .insert i _, s => (s i).mayAct
  | .remove i _, s => (s i).mayAct
  | .clear i, s => (s i).mayAct
  | .copyAssign i j, s => (s i).mayAct ∧ (s j).mayAct
  | .moveAssign i j, s => (s i).mayAct ∧ ((s j).passes = [] ∨ i = j)
  | .broadcast i, s => (s i).mayAct
  | .visit i, s => (s i).entry.isSome = true
  | .callbackReturn i, s => (s i).inCallback
  | .callbackThrow i, s => (s i).inCallback
  | .finish i, s => (s i).atEnd

def update (equal : D → D → Bool) :
    MulticastLabel D → (ℕ → MulticastDelegate D) → ℕ → MulticastDelegate D
  | .insert i d, s =>
    Function.update s i (((s i).pushBack d).setRegistry ((s i).registry.insert d))
  | .remove i d, s =>
    Function.update s i (((s i).remove equal d).setRegistry ((s i).registry.remove equal d))
  | .clear i, s => Function.update s i ((s i).clear.setRegistry (s i).registry.clear)
  | .copyAssign i j, s =>
    if i = j then s
    else Function.update s i
      (((s i).copyAssign (s j)).setRegistry ((s i).registry.assign (s j).registry))
  | .moveAssign i j, s =>
    if i = j then s
    else Function.update
      (Function.update s i
        (((s i).moveAssign (s j)).setRegistry ((s i).registry.assign (s j).registry)))
      j ((s j).movedFrom.setRegistry (s j).registry.clear)
  | .broadcast i, s => Function.update s i (s i).broadcast
  | .visit i, s => Function.update s i (s i).visit
  | .callbackReturn i, s => Function.update s i (s i).callbackReturn
  | .callbackThrow i, s => Function.update s i (s i).leave
  | .finish i, s => Function.update s i (s i).leave

instance (l : MulticastLabel D) (s : ℕ → MulticastDelegate D) : Decidable (guard l s) := by
  cases l <;> simp only [guard] <;> infer_instance

end MulticastDelegate

/-- Any number of containers, each empty at first. `equal` is `operator==` of
the delegates. -/
def multicastLts {D : Type u} (equal : D → D → Bool) :
    Lts (ℕ → MulticastDelegate D) (MulticastLabel D) where
  init := fun s => ∀ i, s i = MulticastDelegate.initial
  guard := MulticastDelegate.guard
  update := MulticastDelegate.update equal

instance {D : Type u} (equal : D → D → Bool) (l : MulticastLabel D)
    (s : ℕ → MulticastDelegate D) : Decidable ((multicastLts equal).guard l s) :=
  inferInstanceAs (Decidable (MulticastDelegate.guard l s))

end AsyncSqlite
