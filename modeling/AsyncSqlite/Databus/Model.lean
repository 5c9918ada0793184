import Mathlib.Data.Int.Notation
import Mathlib.Data.List.Basic
import Mathlib.Logic.Function.Basic
import AsyncSqlite.Lts.Run

/-!
# AsyncSqlite.Databus.Model — the tables of the bus and its critical sections

The topic tables of `extras/databus/DataBus.h`. A table maps a topic to an
object whose type is erased, so an object is modelled with the type it was
created for, and a section lists the casts that it makes.

Reading guide:

* `checkType` is the type check that `GetOrCreateSignal`, `InternalPublish` and
  the two registrations make; `none` is a mismatch.
* `InternalSubscribe` has two critical sections with `Connect` between them
  (`subscribeSignal`, `connect`, `subscribeCached`); `InternalPublish` has one,
  and behind it the snapshot of the signal (`publishLocked`, `getSnapshot`).
* `busLts` interleaves any number of calls of any type on any topic. A call that
  fails its type check does nothing more: it is on its way to `ASSERT`.
* A rate limit wraps the function that is subscribed, so it is no part of this.
-/

namespace AsyncSqlite

universe u v w

/-- `QoS`, with durations in ticks of the clock. -/
structure QoS where
  lastValueCache : Bool
  lifespan : Option ℤ
deriving DecidableEq, Repr

/-- `QoS()` -/
def QoS.default : QoS := ⟨false, none⟩

/-- A `Signal` of the bus, and the type it was created for. -/
structure SignalObject (Ty : Type v) where
  created : Ty
  subscribers : List ℕ
deriving DecidableEq

/-- A serializer or stringifier, and the type it was created for. -/
structure Stored (Ty : Type v) where
  created : Ty
  object : ℕ
deriving DecidableEq

/-- `LvcEntry`: the block was allocated for `created`, and a `live` is in it. -/
structure LvcEntry (Ty : Type v) (V : Type w) where
  created : Ty
  live : Ty
  value : V
  timestamp : ℤ
deriving DecidableEq

/-- A cast of a stored object: what it was created as and what it is taken for. -/
structure Cast (Ty : Type v) where
  created : Option Ty
  target : Ty
deriving DecidableEq

structure DataBus (Topic : Type u) (Ty : Type v) (V : Type w) where
  typeIndices : Topic → Option Ty
  signals : Topic → Option ℕ
  /-- the signals that were created, by number -/
  objects : List (SignalObject Ty)
  serializers : Topic → Option (Stored Ty)
  stringifiers : Topic → Option (Stored Ty)
  lastValues : Topic → Option (LvcEntry Ty V)
  topicQos : Topic → Option QoS
  /-- `m_monitorSignal` is not empty -/
  monitored : Bool
  /-- the occupied part of `m_participants` -/
  participants : List ℕ

/-- What a critical section leaves behind. -/
structure Locked (Topic : Type u) (Ty : Type v) (V : Type w) (R : Type*) where
  bus : DataBus Topic Ty V
  result : R
  casts : List (Cast Ty)

/-- What `InternalPublish` takes out of its critical section. -/
structure Publication (Ty : Type v) where
  hasMonitor : Bool
  stringifier : Option (Stored Ty)
  signal : Option ℕ
  serializer : Option (Stored Ty)
  participants : List ℕ
deriving DecidableEq

namespace DataBus

variable {Topic : Type u} {Ty : Type v} {V : Type w} [DecidableEq Topic] [DecidableEq Ty]

def initial : DataBus Topic Ty V where
  typeIndices := fun _ => none
  signals := fun _ => none
  objects := []
  serializers := fun _ => none
  stringifiers := fun _ => none
  lastValues := fun _ => none
  topicQos := fun _ => none
  monitored := false
  participants := []

/-- The type that the signal `p` was created for. -/
def typeOf (b : DataBus Topic Ty V) (p : ℕ) : Option Ty := b.objects[p]?.map (·.created)

/-- The type check, which fixes the type of a topic on first use. -/
def checkType (b : DataBus Topic Ty V) (topic : Topic) (T : Ty) : Option (DataBus Topic Ty V) :=
  match b.typeIndices topic with
  | some t => if t = T then some b else none
  | none => some { b with typeIndices := Function.update b.typeIndices topic (some T) }

/-- The flag that says whether a publish of the topic is cached. -/
def cacheOn (b : DataBus Topic Ty V) (topic : Topic) : Bool :=
  (b.topicQos topic).any (·.lastValueCache)

/-- `m_topicQos[topic].lastValueCache = enabled` -/
def setLastValueCache (b : DataBus Topic Ty V) (topic : Topic) (enabled : Bool) :
    DataBus Topic Ty V :=
  let qos := (b.topicQos topic).getD QoS.default
  { b with
    topicQos := Function.update b.topicQos topic (some { qos with lastValueCache := enabled }) }

/-- `InternalLastValueCache` -/
def internalLastValueCache (b : DataBus Topic Ty V) (topic : Topic) (enabled : Bool) :
    DataBus Topic Ty V :=
  b.setLastValueCache topic enabled

/-- `GetOrCreateSignal`; a null pointer is `none`. -/
def getOrCreateSignal (b : DataBus Topic Ty V) (topic : Topic) (T : Ty) :
    Locked Topic Ty V (Option ℕ) :=
  match b.checkType topic T with
  | none => ⟨b, none, []⟩
  | some b' =>
    match b'.signals topic with
    | some p => ⟨b', some p, [⟨b'.typeOf p, T⟩]⟩
    | none =>
      let p := b'.objects.length
      ⟨{ b' with
          signals := Function.update b'.signals topic (some p)
          objects := b'.objects ++ [⟨T, []⟩] }, some p, []⟩

/-- The first critical section of `InternalSubscribe`. -/
def subscribeSignal (b : DataBus Topic Ty V) (topic : Topic) (T : Ty) (qos : QoS) :
    Locked Topic Ty V (Option ℕ) :=
  -- the flag is set before the type is checked
  let b' := if qos.lastValueCache then b.setLastValueCache topic true else b
  b'.getOrCreateSignal topic T

/-- `Signal::Connect`. -/
def connect (b : DataBus Topic Ty V) (p sub : ℕ) : DataBus Topic Ty V :=
  { b with
    objects := b.objects.modify p fun o => { o with subscribers := o.subscribers ++ [sub] } }

/-- The second critical section of `InternalSubscribe`; the result is `cachedVal`. -/
def subscribeCached (b : DataBus Topic Ty V) (topic : Topic) (T : Ty) (qos : QoS) (now : ℤ) :
    Option V × List (Cast Ty) :=
  if qos.lastValueCache then
    match b.lastValues topic with
    | some e =>
      let expired := qos.lifespan.any fun lifespan => decide (now - e.timestamp > lifespan)
      if expired then (none, []) else (some e.value, [⟨some e.live, T⟩])
    | none => (none, [])
  else (none, [])

/-- The update of the cache in `InternalPublish`. An entry that exists is
destroyed and constructed again in its block. -/
def storeLastValue (b : DataBus Topic Ty V) (topic : Topic) (T : Ty) (data : V) (now : ℤ) :
    DataBus Topic Ty V × List (Cast Ty) :=
  if b.cacheOn topic then
    match b.lastValues topic with
    | some e =>
      ({ b with
          lastValues := Function.update b.lastValues topic
            (some { e with live := T, value := data, timestamp := now }) }, [⟨some e.live, T⟩])
    | none =>
      ({ b with
          lastValues := Function.update b.lastValues topic (some ⟨T, T, data, now⟩) }, [])
  else (b, [])

/-- What `InternalPublish` looks up once the cache is updated. -/
def publication (b : DataBus Topic Ty V) (topic : Topic) : Publication Ty where
  hasMonitor := b.monitored
  stringifier := if b.monitored then b.stringifiers topic else none
  signal := b.signals topic
  serializer := b.serializers topic
  participants := b.participants

/-- The casts of the objects that it found. -/
def publicationCasts (b : DataBus Topic Ty V) (q : Publication Ty) (T : Ty) : List (Cast Ty) :=
  (q.stringifier.map fun o => ⟨some o.created, T⟩).toList ++
    (q.signal.map fun p => ⟨b.typeOf p, T⟩).toList ++
    (q.serializer.map fun o => ⟨some o.created, T⟩).toList

/-- The critical section of `InternalPublish`. -/
def publishLocked (b : DataBus Topic Ty V) (topic : Topic) (T : Ty) (data : V) (now : ℤ) :
    Locked Topic Ty V (Option (Publication Ty)) :=
  match b.checkType topic T with
  | none => ⟨b, none, []⟩
  | some b' =>
    let r := b'.storeLastValue topic T data now
    let q := r.1.publication topic
    ⟨r.1, some q, r.2 ++ r.1.publicationCasts q T⟩

/-- `Signal::GetSnapshot`. -/
def getSnapshot (b : DataBus Topic Ty V) (p : ℕ) : List ℕ :=
  (b.objects[p]?.map (·.subscribers)).getD []

/-- `InternalRegisterSerializer`; the result says whether the type fits. -/
def internalRegisterSerializer (b : DataBus Topic Ty V) (topic : Topic) (T : Ty) (object : ℕ) :
    DataBus Topic Ty V × Bool :=
  match b.checkType topic T with
  | none => (b, false)
  | some b' =>
    ({ b' with serializers := Function.update b'.serializers topic (some ⟨T, object⟩) }, true)

/-- `InternalRegisterStringifier`. -/
def internalRegisterStringifier (b : DataBus Topic Ty V) (topic : Topic) (T : Ty) (object : ℕ) :
    DataBus Topic Ty V × Bool :=
  match b.checkType topic T with
  | none => (b, false)
  | some b' =>
    ({ b' with stringifiers := Function.update b'.stringifiers topic (some ⟨T, object⟩) }, true)

/-- `InternalAddParticipant` in a table of `max` slots; `none` is a failed assertion. -/
def internalAddParticipant (max : ℕ) (b : DataBus Topic Ty V) (participant : ℕ) :
    Option (DataBus Topic Ty V) :=
  if b.participants.length < max then
    some { b with participants := b.participants ++ [participant] }
  else none

/-- `InternalRemoveParticipant` -/
def internalRemoveParticipant (b : DataBus Topic Ty V) (participant : ℕ) : DataBus Topic Ty V :=
  { b with participants := b.participants.erase participant }

end DataBus

/-! ## Any number of calls -/

/-- A call of `Subscribe` that has left its first critical section. -/
structure SubscribeCall (Topic : Type u) (Ty : Type v) (V : Type w) where
  topic : Topic
  type : Ty
  qos : QoS
  signal : Option ℕ
  /-- history: how many publishes had left their critical section by then -/
  start : ℕ
  connected : Bool
  /-- `cachedVal`, once the second critical section is over -/
  cached : Option (Option V)
deriving DecidableEq

/-- A call of `Publish` or `PublishLocal` that has left its critical section. -/
structure PublishCall (Topic : Type u) (Ty : Type v) (V : Type w) where
  topic : Topic
  type : Ty
  data : V
  localOnly : Bool
  publication : Option (Publication Ty)
  /-- the subscribers that it invokes, once it has taken its snapshot -/
  snapshot : Option (List ℕ)
deriving DecidableEq

structure BusState (Topic : Type u) (Ty : Type v) (V : Type w) where
  bus : DataBus Topic Ty V
  /-- the calls, in the order of their (first) critical sections -/
  subscribes : List (SubscribeCall Topic Ty V)
  publishes : List (PublishCall Topic Ty V)
  /-- history: the casts that were made -/
  casts : List (Cast Ty)

inductive BusStep (Topic : Type u) (Ty : Type v) (V : Type w)
  | subscribe (topic : Topic) (T : Ty) (qos : QoS)
  | connect (i : ℕ)
  | cached (i : ℕ) (now : ℤ)
  | publish (topic : Topic) (T : Ty) (data : V) (localOnly : Bool) (now : ℤ)
  | snapshot (j : ℕ)
  | registerSerializer (topic : Topic) (T : Ty) (object : ℕ)
  | registerStringifier (topic : Topic) (T : Ty) (object : ℕ)
  | lastValueCache (topic : Topic) (enabled : Bool)
  | monitor (connected : Bool)

namespace BusState

variable {Topic : Type u} {Ty : Type v} {V : Type w} [DecidableEq Topic] [DecidableEq Ty]

/-- The signal that the subscribe call `i` connects to. -/
def signalOf (s : BusState Topic Ty V) (i : ℕ) : Option ℕ := s.subscribes[i]?.bind (·.signal)

/-- The signal that the publish call `j` fires. -/
def firedOf (s : BusState Topic Ty V) (j : ℕ) : Option ℕ :=
  (s.publishes[j]?.bind (·.publication)).bind (·.signal)

def guard : BusStep Topic Ty V → BusState Topic Ty V → Prop
  | .connect i, s => (s.signalOf i).isSome ∧ s.subscribes[i]?.any (!·.connected)
  | .cached i _, s => s.subscribes[i]?.any fun c => c.connected && c.cached.isNone
  | .snapshot j, s => (s.firedOf j).isSome ∧ s.publishes[j]?.any (·.snapshot.isNone)
  | _, _ => True

def update : BusStep Topic Ty V → BusState Topic Ty V → BusState Topic Ty V
  | .subscribe topic T qos, s =>
    let r := s.bus.subscribeSignal topic T qos
    { s with
      bus := r.bus
      subscribes := s.subscribes ++
        [⟨topic, T, qos, r.result, s.publishes.length, false, none⟩]
      casts := s.casts ++ r.casts }
  | .connect i, s =>
    match s.signalOf i with
    | some p =>
      { s with
        bus := s.bus.connect p i
        subscribes := s.subscribes.modify i fun c => { c with connected := true } }
    | none => s
  | .cached i now, s =>
    match s.subscribes[i]? with
    | some c =>
      let r := s.bus.subscribeCached c.topic c.type c.qos now
      { s with
        subscribes := s.subscribes.modify i fun c => { c with cached := some r.1 }
        casts := s.casts ++ r.2 }
    | none => s
  | .publish topic T data localOnly now, s =>
    let r := s.bus.publishLocked topic T data now
    { s with
      bus := r.bus
      publishes := s.publishes ++ [⟨topic, T, data, localOnly, r.result, none⟩]
      casts := s.casts ++ r.casts }
  | .snapshot j, s =>
    match s.firedOf j with
    | some p =>
      { s with
        publishes := s.publishes.modify j fun c =>
          { c with snapshot := some (s.bus.getSnapshot p) } }
    | none => s
  | .registerSerializer topic T object, s =>
    { s with bus := (s.bus.internalRegisterSerializer topic T object).1 }
  | .registerStringifier topic T object, s =>
    { s with bus := (s.bus.internalRegisterStringifier topic T object).1 }
  | .lastValueCache topic enabled, s =>
    { s with bus := s.bus.internalLastValueCache topic enabled }
  | .monitor connected, s => { s with bus := { s.bus with monitored := connected } }

instance (l : BusStep Topic Ty V) (s : BusState Topic Ty V) : Decidable (guard l s) := by
  cases l <;> unfold guard <;> infer_instance

/-- Empty tables; which participants there are does not matter. -/
def initial (participants : List ℕ) : BusState Topic Ty V :=
  ⟨{ DataBus.initial with participants := participants }, [], [], []⟩

end BusState

/-- Any interleaving of the calls. -/
def busLts (Topic : Type u) (Ty : Type v) (V : Type w) [DecidableEq Topic] [DecidableEq Ty] :
    Lts (BusState Topic Ty V) (BusStep Topic Ty V) where
  init s := ∃ participants, s = BusState.initial participants
  guard := BusState.guard
  update := BusState.update

instance {Topic : Type u} {Ty : Type v} {V : Type w} [DecidableEq Topic] [DecidableEq Ty]
    (l : BusStep Topic Ty V) (s : BusState Topic Ty V) :
    Decidable ((busLts Topic Ty V).guard l s) :=
  inferInstanceAs (Decidable (BusState.guard l s))

end AsyncSqlite
