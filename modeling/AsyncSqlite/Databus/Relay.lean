import AsyncSqlite.Data.Spread
import AsyncSqlite.Databus.Unhandled

/-!
# AsyncSqlite.Databus.Relay — a network of buses

Any number of nodes with a `DataBus` each. A publish is distributed to the
participants of its node (`Participant::DispatchIfInterested`); each frame goes
to the participants that listen to the transport, and the handler that is
registered there publishes it again: to the local bus only for a topic that
came by `AddIncomingTopic`, to everyone for one that came by `AddRelayTopic`.

Frames arrive in any order, or not at all, and the receiver may take a frame for a
duplicate (`filter`). Which ones it does depends on sequence numbers, which are not
here: any frame may be filtered, and none has to be. Nor is there serialization: a
frame carries the data itself. A topic has one type on all nodes.

* **Ledger** (`relay_ledger`): whatever is handed to a subscriber on any node is
  the data of the publish that the frame goes back to, and every frame that was
  sent is on its way, received or lost.
* **Relay loops** (`relay_settles`): left to itself, the network comes to rest
  after a bounded number of steps if some generation of the frames on their way is
  empty, whatever is lost or filtered. If none is, it goes on for ever as long as
  nothing is lost or filtered; a cycle of relays is what keeps the frames alive.
* **No relays** (`incoming_settles`): where no relay is registered, each frame
  ends where it is received.
-/

namespace AsyncSqlite

/-- A frame on its way to a participant of a node. -/
structure BusFrame (N V : Type) where
  node : N
  participant : ℕ
  remoteId : DelegateRemoteId
  data : V
  /-- history: the publish that it goes back to -/
  origin : ℕ
deriving DecidableEq

/-- The function that `AddIncomingTopic` or `AddRelayTopic` registers. -/
structure TopicHandler (Topic : Type) where
  topic : Topic
  /-- it calls `Publish`, not `PublishLocal` -/
  relay : Bool
deriving DecidableEq

/-- What a publish handed to the subscribers of its node. -/
structure LocalDelivery (N Topic V : Type) where
  node : N
  topic : Topic
  data : V
  origin : ℕ
  subscribers : List ℕ

/-- A call of `Publish` or `PublishLocal`, with the frames that it sent. -/
structure NodePublish (N Topic V : Type) where
  origin : ℕ
  node : N
  topic : Topic
  data : V
  frames : List (BusFrame N V)

structure BusNetwork (N Topic Ty V : Type) where
  nodes : N → BusRun Topic Ty V
  /-- the handlers in the channels of each participant -/
  handlers : N → ℕ → DelegateRemoteId → Option (TopicHandler Topic)
  /-- frames on their way -/
  flight : List (BusFrame N V)
  /-- history: the calls from outside, oldest first -/
  published : List (NodePublish N Topic V)
  /-- history: all frames -/
  sent : List (BusFrame N V)
  received : List (BusFrame N V)
  lost : List (BusFrame N V)
  delivered : List (LocalDelivery N Topic V)

/-- What is fixed: who listens to the transport of a participant, and the type of
each topic. -/
structure Wiring (N Topic Ty : Type) where
  peers : N → ℕ → List (N × ℕ)
  type : Topic → Ty

inductive NetworkLabel (N Topic Ty V : Type) where
  /-- a call on the bus of a node that is no publish -/
  | call (n : N) (op : BusOp Topic Ty V)
  | registerSerializer (n : N) (topic : Topic) (object : ℕ)
  | addIncomingTopic (n : N) (participant : ℕ) (topic : Topic) (remoteId : DelegateRemoteId)
  | addRelayTopic (n : N) (participant : ℕ) (topic : Topic) (remoteId : DelegateRemoteId)
  | publish (n : N) (topic : Topic) (data : V) (localOnly : Bool) (now : ℤ)
  | receive (f : BusFrame N V) (now : ℤ)
  /-- received, and dropped because `is_duplicate` says so -/
  | filter (f : BusFrame N V)
  | lose (f : BusFrame N V)

namespace BusNetwork

variable {N Topic Ty V : Type} [DecidableEq N] [DecidableEq Topic] [DecidableEq Ty] [DecidableEq V]

/-- The sends of `DispatchIfInterested`, participant by participant. -/
def sends (peers : ℕ → List (N × ℕ)) (topicToRemoteId : ℕ → Topic → Option DelegateRemoteId)
    (participants : List ℕ) (serializer : Option (Stored Ty)) (topic : Topic) (data : V)
    (origin : ℕ) : List (BusFrame N V) :=
  participants.flatMap fun p =>
    match topicToRemoteId p topic, serializer with
    | some remoteId, some _ => (peers p).map fun d => ⟨d.1, d.2, remoteId, data, origin⟩
    | _, _ => []

/-- The frames of `InternalPublish`, given what it took out of its critical section. -/
def frames (w : Wiring N Topic Ty) (n : N) (b : BusRun Topic Ty V)
    (result : Option (Publication Ty)) (topic : Topic) (data : V) (localOnly : Bool) (origin : ℕ) :
    List (BusFrame N V) :=
  match result with
  | none => []
  | some q =>
    if localOnly then []
    else sends (w.peers n) b.topicToRemoteId q.participants q.serializer topic data origin

/-- `InternalPublish` on a node. -/
def internalPublish (w : Wiring N Topic Ty) (n : N) (topic : Topic) (data : V) (localOnly : Bool)
    (now : ℤ) (origin : ℕ) (s : BusNetwork N Topic Ty V) : BusNetwork N Topic Ty V :=
  let b := s.nodes n
  let r := b.bus.publishLocked topic (w.type topic) data now
  let sending := frames w n b r.result topic data localOnly origin
  { s with
    nodes := Function.update s.nodes n (b.publish topic (w.type topic) data localOnly now)
    flight := s.flight ++ sending
    sent := s.sent ++ sending
    delivered := s.delivered ++ (r.result.map fun q =>
      ⟨n, topic, data, origin, (q.signal.map r.bus.getSnapshot).getD []⟩).toList }

/-- `Participant::RegisterHandler` -/
def registerHandler (n : N) (participant : ℕ) (remoteId : DelegateRemoteId)
    (h : TopicHandler Topic) (s : BusNetwork N Topic Ty V) : BusNetwork N Topic Ty V :=
  { s with
    handlers := Function.update s.handlers n
      (Function.update (s.handlers n) participant
        (Function.update (s.handlers n participant) remoteId (some h))) }

/-- A call on the bus of a node. -/
def onNode (n : N) (f : BusRun Topic Ty V → BusRun Topic Ty V) (s : BusNetwork N Topic Ty V) :
    BusNetwork N Topic Ty V :=
  { s with nodes := Function.update s.nodes n (f (s.nodes n)) }

/-- The call is no publish, and uses the type of the topic. -/
def Configures (w : Wiring N Topic Ty) : BusOp Topic Ty V → Prop
  | .subscribe topic T _ => T = w.type topic
  | .publish .. => False
  | _ => True

instance (w : Wiring N Topic Ty) : ∀ op : BusOp Topic Ty V, Decidable (Configures w op)
  | .subscribe topic T _ => inferInstanceAs (Decidable (T = w.type topic))
  | .publish .. => isFalse id
  | .disconnect _ | .addParticipant _ | .removeParticipant _ | .addRemoteTopic .. => isTrue trivial

def guard (w : Wiring N Topic Ty) : NetworkLabel N Topic Ty V → BusNetwork N Topic Ty V → Prop
  | .call n op, s => Configures w op ∧ BusRun.guard op (s.nodes n)
  | .registerSerializer n _ _, s | .addIncomingTopic n _ _ _, s | .addRelayTopic n _ _ _, s
  | .publish n _ _ _ _, s => (s.nodes n).ended = false
  | .receive f _, s => f ∈ s.flight ∧ (s.nodes f.node).ended = false
  -- `m_history` is asked for ids with a channel, and not for ACKs
  | .filter f, s => f ∈ s.flight ∧ (s.nodes f.node).ended = false ∧ f.remoteId ≠ ackRemoteId ∧
    (s.handlers f.node f.participant f.remoteId).isSome = true
  | .lose f, s => f ∈ s.flight

def update (w : Wiring N Topic Ty) (maxParticipants : ℕ) :
    NetworkLabel N Topic Ty V → BusNetwork N Topic Ty V → BusNetwork N Topic Ty V
  | .call n op, s => s.onNode n (BusRun.update maxParticipants op)
  | .registerSerializer n topic object, s =>
    s.onNode n fun b =>
      { b with bus := (b.bus.internalRegisterSerializer topic (w.type topic) object).1 }
  | .addIncomingTopic n p topic remoteId, s => s.registerHandler n p remoteId ⟨topic, false⟩
  | .addRelayTopic n p topic remoteId, s =>
    (s.registerHandler n p remoteId ⟨topic, true⟩).onNode n
      (BusRun.update maxParticipants (.addRemoteTopic p topic remoteId))
  | .publish n topic data localOnly now, s =>
    let b := s.nodes n
    let r := b.bus.publishLocked topic (w.type topic) data now
    let origin := s.published.length
    { s.internalPublish w n topic data localOnly now origin with
      published := s.published ++
        [⟨origin, n, topic, data, frames w n b r.result topic data localOnly origin⟩] }
  | .receive f now, s =>
    let s' := { s with flight := s.flight.erase f, received := s.received ++ [f] }
    match s.handlers f.node f.participant f.remoteId with
    -- `ERR_NO_DISPATCHER`
    | none => s'
    | some h => s'.internalPublish w f.node h.topic f.data (!h.relay) now f.origin
  | .filter f, s => { s with flight := s.flight.erase f, received := s.received ++ [f] }
  | .lose f, s => { s with flight := s.flight.erase f, lost := s.lost ++ [f] }

def initial : BusNetwork N Topic Ty V where
  nodes := fun _ => .initial
  handlers := fun _ _ _ => none
  flight := []
  published := []
  sent := []
  received := []
  lost := []
  delivered := []

instance (w : Wiring N Topic Ty) :
    ∀ (l : NetworkLabel N Topic Ty V) (s : BusNetwork N Topic Ty V), Decidable (guard w l s)
  | .call _ _, _ | .receive _ _, _ | .filter _, _ => inferInstanceAs (Decidable (_ ∧ _))
  | .registerSerializer .., _ | .addIncomingTopic .., _ | .addRelayTopic .., _ | .publish .., _ =>
    inferInstanceAs (Decidable (_ = _))
  | .lose _, _ => inferInstanceAs (Decidable (_ ∈ _))

end BusNetwork

open BusNetwork in
def networkLts {N Topic Ty V : Type} [DecidableEq N] [DecidableEq Topic] [DecidableEq Ty]
    [DecidableEq V] (w : Wiring N Topic Ty) (maxParticipants : ℕ) :
    Lts (BusNetwork N Topic Ty V) (NetworkLabel N Topic Ty V) where
  init := fun s => s = initial
  guard := guard w
  update := update w maxParticipants

instance {N Topic Ty V : Type} [DecidableEq N] [DecidableEq Topic] [DecidableEq Ty] [DecidableEq V]
    (w : Wiring N Topic Ty) (maxParticipants : ℕ) (l : NetworkLabel N Topic Ty V)
    (s : BusNetwork N Topic Ty V) : Decidable ((networkLts w maxParticipants).guard l s) :=
  inferInstanceAs (Decidable (BusNetwork.guard w l s))

/-! ## The tables of a node -/

namespace DataBus

variable {Topic : Type} {Ty : Type} {V : Type} [DecidableEq Topic] [DecidableEq Ty]
  {b b' : DataBus Topic Ty V} {type : Topic → Ty} {topic : Topic}

/-- The types that are recorded are those that the topics have. -/
def Recorded (type : Topic → Ty) (b : DataBus Topic Ty V) : Prop :=
  ∀ topic T, b.typeIndices topic = some T → T = type topic

theorem Recorded.isSome (h : b.Recorded type) (topic : Topic) :
    (b.checkType topic (type topic)).isSome = true := by
  rw [Option.isSome_iff_ne_none]
  intro hnone
  rcases checkType_eq_none.mp hnone with ⟨t, ht, hne⟩
  exact hne (h topic t ht)

theorem Recorded.checkType (h : b.Recorded type) (hc : b.checkType topic (type topic) = some b') :
    b'.Recorded type := by
  rw [(checkType_eq_some hc).2]
  intro t T ht
  by_cases heq : t = topic
  · subst heq
    simp only [Function.update_self, Option.some.injEq] at ht
    exact ht.symm
  · simp only [Function.update_of_ne heq] at ht
    exact h t T ht

theorem Recorded.subscribeSignal (h : b.Recorded type) (topic : Topic) (qos : QoS) :
    (b.subscribeSignal topic (type topic) qos).bus.Recorded type := by
  have hflag :
      Recorded type (if qos.lastValueCache then b.setLastValueCache topic true else b) := by
    split
    · exact h
    · exact h
  unfold DataBus.subscribeSignal getOrCreateSignal
  dsimp only
  generalize (if qos.lastValueCache then b.setLastValueCache topic true else b) = b₀ at hflag ⊢
  cases hc : b₀.checkType topic (type topic) with
  | none => exact hflag
  | some b₁ =>
    have hrec := hflag.checkType hc
    dsimp only
    cases b₁.signals topic with
    | some p => exact hrec
    | none => exact hrec

theorem Recorded.registerSerializer (h : b.Recorded type) (object : ℕ) :
    (b.internalRegisterSerializer topic (type topic) object).1.Recorded type := by
  unfold internalRegisterSerializer
  cases hc : b.checkType topic (type topic) with
  | none => exact h
  | some b₁ =>
    have hrec := h.checkType hc
    exact fun t T ht => hrec t T ht

/-- A publish finds the tables of its topic, and writes the recorded type and the
cache. -/
theorem Recorded.publishLocked (h : b.Recorded type) (topic : Topic) (data : V) (now : ℤ) :
    ∃ q, (b.publishLocked topic (type topic) data now).result = some q ∧
      q.participants = b.participants ∧ q.serializer = b.serializers topic ∧
      (b.publishLocked topic (type topic) data now).bus.Recorded type ∧
      (b.publishLocked topic (type topic) data now).bus.participants = b.participants ∧
      (b.publishLocked topic (type topic) data now).bus.serializers = b.serializers := by
  rcases Option.isSome_iff_exists.mp (h.isSome topic) with ⟨b₁, hc⟩
  have hrec := h.checkType hc
  have heq := (checkType_eq_some hc).2
  rcases storeLastValue_frame b₁ topic (type topic) data now with ⟨lastValues, hframe⟩
  unfold DataBus.publishLocked
  rw [hc]
  dsimp only
  rw [hframe]
  refine ⟨_, rfl, ?_, ?_, hrec, ?_, ?_⟩
  · simp [publication, heq]
  · simp [publication, heq]
  · simp [heq]
  · simp [heq]

end DataBus

/-- What decides where the frames of a node go, and whether it is there. -/
structure SameTables {Topic Ty V : Type} (b b' : BusRun Topic Ty V) : Prop where
  participants : b'.bus.participants = b.bus.participants
  topics : b'.topicToRemoteId = b.topicToRemoteId
  serializers : b'.bus.serializers = b.bus.serializers
  ended : b'.ended = b.ended

theorem BusRun.publish_sameTables {Topic Ty V : Type} [DecidableEq Topic] [DecidableEq Ty]
    {b : BusRun Topic Ty V} {type : Topic → Ty} (h : b.bus.Recorded type) (topic : Topic) (data : V)
    (localOnly : Bool) (now : ℤ) :
    SameTables b (b.publish topic (type topic) data localOnly now) ∧
      (b.publish topic (type topic) data localOnly now).bus.Recorded type := by
  rcases h.publishLocked topic data now with ⟨q, hq, -, -, hrec, hpart, hser⟩
  unfold BusRun.publish
  dsimp only
  rw [hq]
  exact ⟨⟨hpart, rfl, hser, rfl⟩, hrec⟩

namespace BusNetwork

variable {N Topic Ty V : Type} [DecidableEq N] [DecidableEq Topic] [DecidableEq Ty] [DecidableEq V]
  {w : Wiring N Topic Ty} {maxParticipants : ℕ} {s s' : BusNetwork N Topic Ty V}

/-! ## One publish -/

/-- The frames of a publish on a node that is not local only. -/
def sendsFrom (w : Wiring N Topic Ty) (s : BusNetwork N Topic Ty V) (n : N) (topic : Topic)
    (data : V) (origin : ℕ) : List (BusFrame N V) :=
  sends (w.peers n) (s.nodes n).topicToRemoteId (s.nodes n).bus.participants
    ((s.nodes n).bus.serializers topic) topic data origin

/-- The frames that the receipt of a frame brings forth. -/
def outgoing (w : Wiring N Topic Ty) (s : BusNetwork N Topic Ty V) (f : BusFrame N V) :
    List (BusFrame N V) :=
  match s.handlers f.node f.participant f.remoteId with
  | some h => if h.relay then s.sendsFrom w f.node h.topic f.data f.origin else []
  | none => []

structure SameRouting (s s' : BusNetwork N Topic Ty V) : Prop where
  handlers : s'.handlers = s.handlers
  nodes : ∀ n, SameTables (s.nodes n) (s'.nodes n)

omit [DecidableEq N] [DecidableEq Topic] [DecidableEq Ty] [DecidableEq V] in
theorem SameRouting.refl (s : BusNetwork N Topic Ty V) : SameRouting s s :=
  ⟨rfl, fun _ => ⟨rfl, rfl, rfl, rfl⟩⟩

omit [DecidableEq N] [DecidableEq Topic] [DecidableEq Ty] [DecidableEq V] in
theorem SameRouting.trans {s'' : BusNetwork N Topic Ty V} (h : SameRouting s s')
    (h' : SameRouting s' s'') : SameRouting s s'' where
  handlers := h'.handlers.trans h.handlers
  nodes := by
    intro n
    have hn := h.nodes n
    have hn' := h'.nodes n
    exact ⟨hn'.participants.trans hn.participants, hn'.topics.trans hn.topics,
      hn'.serializers.trans hn.serializers, hn'.ended.trans hn.ended⟩

omit [DecidableEq N] [DecidableEq Topic] [DecidableEq Ty] [DecidableEq V] in
theorem SameRouting.outgoing (h : SameRouting s s') : s'.outgoing w = s.outgoing w := by
  funext f
  have hn := h.nodes f.node
  simp only [BusNetwork.outgoing, sendsFrom, h.handlers, hn.participants, hn.topics,
    hn.serializers]

/-- Every node records the types of the topics. -/
def Recorded (w : Wiring N Topic Ty) (s : BusNetwork N Topic Ty V) : Prop :=
  ∀ n, (s.nodes n).bus.Recorded w.type

omit [DecidableEq V] in
theorem internalPublish_spec (hrec : Recorded w s) (n : N) (topic : Topic) (data : V)
    (localOnly : Bool) (now : ℤ) (origin : ℕ) :
    SameRouting s (s.internalPublish w n topic data localOnly now origin) ∧
      Recorded w (s.internalPublish w n topic data localOnly now origin) ∧
      ∃ nodes subscribers, s.internalPublish w n topic data localOnly now origin =
        { s with
          nodes := nodes
          flight := s.flight ++ if localOnly then [] else s.sendsFrom w n topic data origin
          sent := s.sent ++ if localOnly then [] else s.sendsFrom w n topic data origin
          delivered := s.delivered ++ [⟨n, topic, data, origin, subscribers⟩] } := by
  have hpub : ∃ subscribers, s.internalPublish w n topic data localOnly now origin =
      { s with
        nodes := Function.update s.nodes n
          ((s.nodes n).publish topic (w.type topic) data localOnly now)
        flight := s.flight ++ if localOnly then [] else s.sendsFrom w n topic data origin
        sent := s.sent ++ if localOnly then [] else s.sendsFrom w n topic data origin
        delivered := s.delivered ++ [⟨n, topic, data, origin, subscribers⟩] } := by
    rcases (hrec n).publishLocked topic data now with ⟨q, hq, hpart, hser, -⟩
    refine ⟨(q.signal.map ((s.nodes n).bus.publishLocked topic (w.type topic) data
      now).bus.getSnapshot).getD [], ?_⟩
    unfold internalPublish frames
    dsimp only
    rw [hq]
    dsimp only
    rw [hpart, hser]
    rfl
  rcases hpub with ⟨subscribers, hpub⟩
  have hnode := (s.nodes n).publish_sameTables (hrec n) topic data localOnly now
  rw [hpub]
  refine ⟨⟨rfl, fun m => ?_⟩, fun m => ?_, _, subscribers, rfl⟩
  · -- the node keeps its tables, and the others are not touched
    by_cases hm : m = n
    · rw [hm]
      simpa using hnode.1
    · simpa [Function.update_of_ne hm] using (SameRouting.refl s).nodes m
  · by_cases hm : m = n
    · rw [hm]
      simpa using hnode.2
    · simpa [Function.update_of_ne hm] using hrec m

/-! ## The network by itself -/

/-- The steps of the network: nobody calls anything. -/
def OfNetwork : NetworkLabel N Topic Ty V → Prop
  | .receive _ _ | .filter _ | .lose _ => True
  | _ => False

/-- A frame is received and not filtered. -/
def IsReceive : NetworkLabel N Topic Ty V → Prop
  | .receive _ _ => True
  | _ => False

variable (maxParticipants) in
/-- A frame that is received is used up, and brings forth its offspring. -/
theorem receive_spec (hrec : Recorded w s) (f : BusFrame N V) (now : ℤ) :
    SameRouting s (update w maxParticipants (.receive f now) s) ∧
      Recorded w (update w maxParticipants (.receive f now) s) ∧
      (update w maxParticipants (.receive f now) s).flight =
        s.flight.erase f ++ s.outgoing w f := by
  cases hh : s.handlers f.node f.participant f.remoteId with
  | none =>
    simp only [update, hh]
    exact ⟨⟨rfl, fun n => (SameRouting.refl s).nodes n⟩, hrec, by simp [BusNetwork.outgoing, hh]⟩
  | some h =>
    rcases internalPublish_spec (w := w)
      (s := { s with flight := s.flight.erase f, received := s.received ++ [f] }) hrec f.node
      h.topic f.data (!h.relay) now f.origin with ⟨hroute, hrec', nodes, subscribers, heq⟩
    simp only [update, hh]
    refine ⟨⟨hroute.handlers, hroute.nodes⟩, hrec', ?_⟩
    rw [heq]
    simp only [BusNetwork.outgoing, hh]
    cases h.relay with
    | true => rfl
    | false => rfl

variable (maxParticipants) in
/-- A step of the network uses up a frame, which brings forth others or not. -/
theorem step_ofNetwork {l : NetworkLabel N Topic Ty V} (hrec : Recorded w s) (hl : OfNetwork l)
    (hg : guard w l s) :
    SameRouting s (update w maxParticipants l s) ∧
      Recorded w (update w maxParticipants l s) ∧
      ∃ f ∈ s.flight, ∃ offspring, (update w maxParticipants l s).flight =
        s.flight.erase f ++ offspring ∧ (offspring = s.outgoing w f ∨ offspring = []) := by
  cases l with
  | receive f now =>
    rcases receive_spec maxParticipants hrec f now with
      ⟨hroute, hrec', hflight⟩
    exact ⟨hroute, hrec', f, hg.1, _, hflight, Or.inl rfl⟩
  | filter f =>
    exact ⟨⟨rfl, fun n => (SameRouting.refl s).nodes n⟩, hrec, f, hg.1, [], by simp [update],
      Or.inr rfl⟩
  | lose f =>
    exact ⟨⟨rfl, fun n => (SameRouting.refl s).nodes n⟩, hrec, f, hg, [], by simp [update],
      Or.inr rfl⟩
  | call _ _ | registerSerializer _ _ _ | addIncomingTopic _ _ _ _ | addRelayTopic _ _ _ _
  | publish _ _ _ _ _ => exact absurd hl id

theorem Recorded.step {l : NetworkLabel N Topic Ty V} (hg : guard w l s) (hrec : Recorded w s) :
    Recorded w (update w maxParticipants l s) := by
  have hon : ∀ (n : N) (f : BusRun Topic Ty V → BusRun Topic Ty V),
      (f (s.nodes n)).bus.Recorded w.type → Recorded w (s.onNode n f) := by
    intro n f hf m
    unfold onNode
    by_cases hm : m = n
    · rw [hm]
      simpa using hf
    · simpa [Function.update_of_ne hm] using hrec m
  cases l with
  | call n op =>
    refine hon n _ ?_
    rcases hg with ⟨hconf, -⟩
    cases op with
    | subscribe topic T qos =>
      have hT : T = w.type topic := hconf
      subst hT
      have hsub := (hrec n).subscribeSignal topic qos
      simp only [BusRun.update, BusRun.subscribe]
      split
      · exact hsub
      · exact fun t T ht => hsub t T ht
    | disconnect c => exact hrec n
    | addParticipant p =>
      simp only [BusRun.update, DataBus.internalAddParticipant]
      split
      · rename_i bus hbus
        split at hbus
        · cases hbus
          exact hrec n
        · cases hbus
      · exact hrec n
    | removeParticipant p => exact hrec n
    | addRemoteTopic p topic remoteId => exact hrec n
    | publish topic T data localOnly now => exact absurd hconf id
  | registerSerializer n topic object =>
    exact hon n (fun b => { b with
      bus := (b.bus.internalRegisterSerializer topic (w.type topic) object).1 })
      ((hrec n).registerSerializer object)
  | addIncomingTopic n p topic remoteId => exact hrec
  | addRelayTopic n p topic remoteId => exact hon n _ (hrec n)
  | publish n topic data localOnly now =>
    exact (internalPublish_spec hrec n topic data localOnly now s.published.length).2.1
  | receive f now => exact (step_ofNetwork _ (l := .receive f now) hrec trivial hg).2.1
  | filter f => exact hrec
  | lose f => exact hrec

theorem recorded_of_reachable {ok : NetworkLabel N Topic Ty V → BusNetwork N Topic Ty V → Prop}
    (hr : (networkLts w maxParticipants).ReachableWhen ok s) : Recorded w s := by
  refine hr.induct (P := Recorded w) ?_ ?_
  · rintro s₀ rfl n topic T hT
    cases hT
  · intro l s₀ _ hg _ h
    exact h.step hg

/-- A run of the network keeps the routes, and never has more steps than there
are frames in all generations. -/
theorem run_ofNetwork {d : ℕ} (hrec : Recorded w s) (hends : hops (s.outgoing w) d s.flight = [])
    {ls : List (NetworkLabel N Topic Ty V)} (hrun : (networkLts w maxParticipants).Run s ls s')
    (hls : ∀ l ∈ ls, OfNetwork l) :
    SameRouting s s' ∧ Recorded w s' ∧ hops (s.outgoing w) d s'.flight = [] ∧
      ls.length + total (s.outgoing w) d s'.flight ≤ total (s.outgoing w) d s.flight := by
  induction hrun with
  | nil => exact ⟨.refl s, hrec, hends, by simp⟩
  | concat hpre hg ih =>
    rename_i s₁ ls₁ l
    rcases ih fun l' hl' => hls l' (List.mem_append_left _ hl') with ⟨hroute, hrec₁, hends₁, hlen⟩
    rcases step_ofNetwork maxParticipants hrec₁ (hls l (by simp)) hg with
      ⟨hroute', hrec', f, hf, offspring, hflight, hoff⟩
    rw [hroute.outgoing] at hoff
    have hlt := total_erase_lt hends₁ hf hoff
    refine ⟨hroute.trans hroute', hrec', ?_, ?_⟩
    · change hops _ d (update w maxParticipants l s₁).flight = []
      rw [hflight]
      exact hops_erase hends₁ hf hoff
    · change _ + total _ d (update w maxParticipants l s₁).flight ≤ _
      rw [hflight, List.length_append, List.length_singleton]
      omega

variable (maxParticipants) in
/-- While the generations go on, the network can go on for as many steps. -/
theorem exists_run (d : ℕ) (hrec : Recorded w s) (halive : ∀ n, (s.nodes n).ended = false)
    (hgoes : hops (s.outgoing w) d s.flight ≠ []) :
    ∃ ls s', (networkLts w maxParticipants).Run s ls s' ∧ (∀ l ∈ ls, IsReceive l) ∧
      ls.length = d := by
  induction d generalizing s with
  | zero => exact ⟨[], s, .nil, by simp, rfl⟩
  | succ d ih =>
    rcases exists_hops_ne_nil hgoes with ⟨f, hf, hnext⟩
    -- the frame whose offspring goes on is received
    have hg : guard w (.receive f 0) s := ⟨hf, halive f.node⟩
    have hfirst : (networkLts w maxParticipants).Run s [.receive f 0]
        (update w maxParticipants (.receive f 0) s) := Lts.Run.concat .nil hg
    rcases receive_spec maxParticipants hrec f 0 with
      ⟨hroute, hrec', hflight⟩
    have halive' : ∀ n, ((update w maxParticipants (.receive f 0) s).nodes n).ended = false := by
      intro n
      rw [(hroute.nodes n).ended]
      exact halive n
    have hgoes' : hops ((update w maxParticipants (.receive f 0) s).outgoing w) d
        (update w maxParticipants (.receive f 0) s).flight ≠ [] := by
      rw [hroute.outgoing, hflight]
      exact hops_ne_nil_of_subset (.refl _) hnext
    rcases ih hrec' halive' hgoes' with ⟨ls, s', hrun, hls, hlen⟩
    refine ⟨[.receive f 0] ++ ls, s', hfirst.trans hrun, ?_, ?_⟩
    · intro l hl
      rcases List.mem_append.mp hl with h | h
      · rw [List.mem_singleton.mp h]
        trivial
      · exact hls l h
    · simp [hlen]

end BusNetwork

namespace BusNetwork

variable {N Topic Ty V : Type} [DecidableEq N] [DecidableEq Topic] [DecidableEq Ty] [DecidableEq V]
  {w : Wiring N Topic Ty} {maxParticipants : ℕ} {s s' : BusNetwork N Topic Ty V}

/-! ## The ledger -/

/-- Which publish it goes back to, and where it arrives. -/
def frameKey (f : BusFrame N V) : ℕ × N := (f.origin, f.node)

def deliveryKey (e : LocalDelivery N Topic V) : ℕ × N := (e.origin, e.node)

def publishKey (p : NodePublish N Topic V) : ℕ × N := (p.origin, p.node)

/-- It carries the data of the publish that it goes back to. -/
def Genuine (s : BusNetwork N Topic Ty V) (origin : ℕ) (data : V) : Prop :=
  ∃ p, s.published[origin]? = some p ∧ p.data = data

structure LedgerInv (s : BusNetwork N Topic Ty V) : Prop where
  perm : s.sent.Perm (s.flight ++ (s.received ++ s.lost))
  sent : ∀ f ∈ s.sent, s.Genuine f.origin f.data
  delivered : ∀ e ∈ s.delivered, s.Genuine e.origin e.data
  count : ∀ x, (s.delivered.map deliveryKey).count x ≤
    (s.published.map publishKey).count x + (s.received.map frameKey).count x

omit [DecidableEq N] [DecidableEq Topic] [DecidableEq Ty] [DecidableEq V] in
theorem mem_frames {n : N} {b : BusRun Topic Ty V} {result : Option (Publication Ty)}
    {topic : Topic} {data : V} {localOnly : Bool} {origin : ℕ} {f : BusFrame N V}
    (hf : f ∈ frames w n b result topic data localOnly origin) :
    f.origin = origin ∧ f.data = data := by
  cases result with
  | none => simp [frames] at hf
  | some q =>
    simp only [frames] at hf
    split at hf
    · simp at hf
    · rcases List.mem_flatMap.mp hf with ⟨p, -, hp⟩
      split at hp
      · rcases List.mem_map.mp hp with ⟨d, -, rfl⟩
        exact ⟨rfl, rfl⟩
      · simp at hp

omit [DecidableEq V] in
/-- A publish keeps the ledger, provided its delivery is still to be accounted for. -/
theorem ledger_internalPublish {n : N} {topic : Topic} {data : V} {localOnly : Bool} {now : ℤ}
    {origin : ℕ} (hperm : s.sent.Perm (s.flight ++ (s.received ++ s.lost)))
    (hsent : ∀ f ∈ s.sent, s.Genuine f.origin f.data)
    (hdelivered : ∀ e ∈ s.delivered, s.Genuine e.origin e.data) (hgen : s.Genuine origin data)
    (hcount : ∀ x, (s.delivered.map deliveryKey).count x + [(origin, n)].count x ≤
      (s.published.map publishKey).count x + (s.received.map frameKey).count x) :
    LedgerInv (s.internalPublish w n topic data localOnly now origin) where
  perm := by
    have hmore := hperm.append_right (frames w n (s.nodes n)
      ((s.nodes n).bus.publishLocked topic (w.type topic) data now).result topic data localOnly
      origin)
    refine hmore.trans ?_
    simp only [internalPublish]
    rw [List.append_assoc, List.append_assoc s.flight]
    exact List.perm_append_comm.append_left _
  sent := by
    intro f hf
    rcases List.mem_append.mp hf with hold | hnew
    · exact hsent f hold
    · rw [(mem_frames hnew).1, (mem_frames hnew).2]
      exact hgen
  delivered := by
    intro e he
    rcases List.mem_append.mp he with hold | hnew
    · exact hdelivered e hold
    · rw [Option.mem_toList, Option.map_eq_some_iff] at hnew
      rcases hnew with ⟨q, -, rfl⟩
      exact hgen
  count := by
    intro x
    have hx := hcount x
    simp only [internalPublish, List.map_append, List.count_append]
    cases ((s.nodes n).bus.publishLocked topic (w.type topic) data now).result with
    | none =>
      simp only [Option.map_none, Option.toList_none, List.map_nil, List.count_nil]
      omega
    | some q =>
      simp only [Option.map_some, Option.toList_some, List.map_cons, List.map_nil, deliveryKey]
      exact hx

omit [DecidableEq N] [DecidableEq Topic] [DecidableEq Ty] [DecidableEq V] in
theorem Genuine.published {origin : ℕ} {data : V} (h : s.Genuine origin data)
    (p : NodePublish N Topic V) :
    Genuine { s with published := s.published ++ [p] } origin data := by
  rcases h with ⟨q, hq, hdata⟩
  have hlt := (List.getElem?_eq_some_iff.mp hq).1
  exact ⟨q, by rw [List.getElem?_append_left hlt]; exact hq, hdata⟩

omit [DecidableEq Topic] [DecidableEq Ty] in
/-- A frame goes over from the flight to what was received. Its delivery is still to be
accounted for. -/
theorem LedgerInv.received (h : LedgerInv s) {f : BusFrame N V} (hf : f ∈ s.flight) :
    LedgerInv { s with flight := s.flight.erase f, received := s.received ++ [f] } ∧
      ∀ x, (s.delivered.map deliveryKey).count x + [(f.origin, f.node)].count x ≤
        (s.published.map publishKey).count x + ((s.received ++ [f]).map frameKey).count x := by
  have hperm : s.sent.Perm (s.flight.erase f ++ ((s.received ++ [f]) ++ s.lost)) := by
    refine h.perm.trans (((List.perm_cons_erase hf).append_right _).trans ?_)
    rw [List.append_assoc, List.cons_append]
    refine List.perm_middle.symm.trans (List.Perm.append_left _ ?_)
    exact List.perm_middle.symm
  have hcount : ∀ x, (s.delivered.map deliveryKey).count x + [(f.origin, f.node)].count x ≤
      (s.published.map publishKey).count x + ((s.received ++ [f]).map frameKey).count x := by
    intro x
    have hx := h.count x
    simp only [List.map_append, List.map_cons, List.map_nil, List.count_append, frameKey]
    omega
  refine ⟨⟨hperm, h.sent, h.delivered, fun x => ?_⟩, hcount⟩
  have hx := hcount x
  dsimp only
  omega

theorem LedgerInv.step {l : NetworkLabel N Topic Ty V} (hg : guard w l s) (h : LedgerInv s) :
    LedgerInv (update w maxParticipants l s) := by
  cases l with
  | call _ _ | registerSerializer _ _ _ | addIncomingTopic _ _ _ _ | addRelayTopic _ _ _ _ =>
    exact ⟨h.perm, h.sent, h.delivered, h.count⟩
  | publish n topic data localOnly now =>
    -- the publish is on record before it is distributed
    let p : NodePublish N Topic V := ⟨s.published.length, n, topic, data, frames w n (s.nodes n)
      ((s.nodes n).bus.publishLocked topic (w.type topic) data now).result topic data localOnly
      s.published.length⟩
    refine ledger_internalPublish (s := { s with published := s.published ++ [p] }) h.perm ?_ ?_ ?_
      ?_
    · exact fun f hf => (h.sent f hf).published p
    · exact fun e he => (h.delivered e he).published p
    · exact ⟨p, by simp, rfl⟩
    · intro x
      have hx := h.count x
      simp only [List.map_append, List.map_cons, List.map_nil, List.count_append, publishKey, p]
      omega
  | receive f now =>
    have hmem : f ∈ s.sent := h.perm.symm.subset (List.mem_append_left _ hg.1)
    have hreceived := h.received hg.1
    simp only [update]
    cases s.handlers f.node f.participant f.remoteId with
    | none => exact hreceived.1
    | some hd =>
      exact ledger_internalPublish hreceived.1.perm h.sent h.delivered (h.sent f hmem) hreceived.2
  | filter f => exact (h.received hg.1).1
  | lose f =>
    refine ⟨?_, h.sent, h.delivered, h.count⟩
    have hf : f ∈ s.flight := hg
    refine h.perm.trans (((List.perm_cons_erase hf).append_right _).trans ?_)
    simp only [update, List.cons_append]
    rw [← List.append_assoc, ← List.append_assoc, ← List.append_assoc]
    exact (List.perm_append_singleton f _).symm

theorem ledger_of_reachable (hr : (networkLts w maxParticipants).Reachable s) : LedgerInv s := by
  refine hr.induct (P := LedgerInv) ?_ ?_
  · rintro s₀ rfl
    constructor
    · exact .refl _
    · intro f hf
      cases hf
    · intro e he
      cases he
    · intro x
      exact Nat.zero_le _
  · intro l s₀ _ hg _ h
    exact h.step hg

/-! ## No relays -/

/-- No relay is registered. -/
def NoRelay : NetworkLabel N Topic Ty V → BusNetwork N Topic Ty V → Prop
  | .addRelayTopic .., _ => False
  | _, _ => True

instance : ∀ (l : NetworkLabel N Topic Ty V) (s : BusNetwork N Topic Ty V),
    Decidable (NoRelay l s)
  | .addRelayTopic .., _ => isFalse id
  | .call .., _ | .registerSerializer .., _ | .addIncomingTopic .., _ | .publish .., _
  | .receive .., _ | .filter _, _ | .lose _, _ => isTrue trivial

structure DirectInv (s : BusNetwork N Topic Ty V) : Prop where
  handlers : ∀ n p id h, s.handlers n p id = some h → h.relay = false
  sent : s.sent = s.published.flatMap (·.frames)

omit [DecidableEq N] [DecidableEq Topic] [DecidableEq Ty] [DecidableEq V] in
theorem frames_local (n : N) (b : BusRun Topic Ty V) (result : Option (Publication Ty))
    (topic : Topic) (data : V) (origin : ℕ) :
    frames w n b result topic data true origin = [] := by
  cases result with
  | none => rfl
  | some q => rfl

theorem DirectInv.step {l : NetworkLabel N Topic Ty V} (hok : NoRelay l s) (h : DirectInv s) :
    DirectInv (update w maxParticipants l s) := by
  cases l with
  | call _ _ | registerSerializer _ _ _ | filter _ | lose _ => exact ⟨h.handlers, h.sent⟩
  | addIncomingTopic n p topic remoteId =>
    refine ⟨fun m q id hd hhd => ?_, h.sent⟩
    simp only [update, registerHandler] at hhd
    -- the new handler is none that relays, and the others are as they were
    by_cases hm : m = n
    · subst hm
      rw [Function.update_self] at hhd
      by_cases hq : q = p
      · subst hq
        rw [Function.update_self] at hhd
        by_cases hid : id = remoteId
        · subst hid
          rw [Function.update_self, Option.some.injEq] at hhd
          rw [← hhd]
        · rw [Function.update_of_ne hid] at hhd
          exact h.handlers _ _ _ _ hhd
      · rw [Function.update_of_ne hq] at hhd
        exact h.handlers _ _ _ _ hhd
    · rw [Function.update_of_ne hm] at hhd
      exact h.handlers _ _ _ _ hhd
  | addRelayTopic n p topic remoteId => exact absurd hok id
  | publish n topic data localOnly now =>
    refine ⟨h.handlers, ?_⟩
    simp only [update, internalPublish]
    rw [List.flatMap_append, ← h.sent]
    simp
  | receive f now =>
    simp only [update]
    cases hh : s.handlers f.node f.participant f.remoteId with
    | none => exact ⟨h.handlers, h.sent⟩
    | some hd =>
      have hrelay := h.handlers _ _ _ _ hh
      refine ⟨h.handlers, ?_⟩
      simp only [internalPublish, hrelay, Bool.not_false]
      rw [frames_local, List.append_nil]
      exact h.sent

theorem direct_of_reachable (hr : (networkLts w maxParticipants).ReachableWhen NoRelay s) :
    DirectInv s := by
  refine hr.induct (P := DirectInv) ?_ ?_
  · rintro s₀ rfl
    refine ⟨fun n p id h hh => ?_, rfl⟩
    cases hh
  · intro l s₀ _ _ hok h
    exact h.step hok

omit [DecidableEq N] [DecidableEq Topic] [DecidableEq Ty] [DecidableEq V] in
theorem DirectInv.outgoing (h : DirectInv s) (f : BusFrame N V) : s.outgoing w f = [] := by
  unfold BusNetwork.outgoing
  cases hh : s.handlers f.node f.participant f.remoteId with
  | none => rfl
  | some hd =>
    dsimp only
    rw [h.handlers _ _ _ _ hh]
    rfl

theorem published_ofNetwork {l : NetworkLabel N Topic Ty V} (hl : OfNetwork l) :
    (update w maxParticipants l s).published = s.published := by
  cases l with
  | receive f now =>
    simp only [update]
    cases s.handlers f.node f.participant f.remoteId with
    | none => rfl
    | some h => rfl
  | filter f | lose f => rfl
  | call _ _ | registerSerializer _ _ _ | addIncomingTopic _ _ _ _ | addRelayTopic _ _ _ _
  | publish _ _ _ _ _ => exact absurd hl id

/-- Without relays each step of the network uses up one frame and sends none. -/
theorem DirectInv.run (h : DirectInv s) (hrec : Recorded w s)
    {ls : List (NetworkLabel N Topic Ty V)} (hrun : (networkLts w maxParticipants).Run s ls s')
    (hls : ∀ l ∈ ls, OfNetwork l) :
    DirectInv s' ∧ Recorded w s' ∧ s'.published = s.published ∧
      ls.length + s'.flight.length = s.flight.length := by
  induction hrun with
  | nil => exact ⟨h, hrec, rfl, by simp⟩
  | concat hpre hg ih =>
    rename_i s₁ ls₁ l
    rcases ih fun l' hl' => hls l' (List.mem_append_left _ hl') with ⟨h₁, hrec₁, hpub, hlen⟩
    have hl := hls l (by simp)
    have hok : NoRelay l s₁ := by
      cases l with
      | addRelayTopic _ _ _ _ => exact hl
      | call _ _ | registerSerializer _ _ _ | addIncomingTopic _ _ _ _ | publish _ _ _ _ _
      | receive _ _ | filter _ | lose _ => trivial
    rcases step_ofNetwork maxParticipants hrec₁ hl hg with
      ⟨-, hrec', f, hf, offspring, hflight, hoff⟩
    have hnone : offspring = [] := by
      rcases hoff with hoff | hoff
      · rw [hoff, h₁.outgoing]
      · exact hoff
    refine ⟨h₁.step hok, hrec', (published_ofNetwork hl).trans hpub, ?_⟩
    change _ + (update w maxParticipants l s₁).flight.length = _
    have hpos := List.length_pos_of_mem hf
    rw [hflight, hnone, List.append_nil, List.length_erase_of_mem hf, List.length_append,
      List.length_singleton]
    omega

end BusNetwork

open BusNetwork

variable {N Topic Ty V : Type} [DecidableEq N] [DecidableEq Topic] [DecidableEq Ty] [DecidableEq V]
  {w : Wiring N Topic Ty} {maxParticipants : ℕ} {s : BusNetwork N Topic Ty V}

/-- Left to itself the network comes to rest after a bounded number of steps if the
frames on their way have an empty generation, whatever is lost or filtered. If they have
none, because relays lead them on for ever, and no node has ended, the network can go on
for any number of steps, in each of which a frame is received and not filtered. -/
theorem relay_settles (hr : (networkLts w maxParticipants).Reachable s) :
    ((∃ d, hops (s.outgoing w) d s.flight = []) →
      ∃ bound, ∀ ls s', (networkLts w maxParticipants).Run s ls s' → (∀ l ∈ ls, OfNetwork l) →
        ls.length ≤ bound) ∧
    ((∀ d, hops (s.outgoing w) d s.flight ≠ []) → (∀ n, (s.nodes n).ended = false) →
      ∀ steps, ∃ ls s', (networkLts w maxParticipants).Run s ls s' ∧ (∀ l ∈ ls, IsReceive l) ∧
        ls.length = steps) := by
  have hrec := recorded_of_reachable hr
  constructor
  · rintro ⟨d, hd⟩
    refine ⟨total (s.outgoing w) d s.flight, fun ls s' hrun hls => ?_⟩
    have hlen := (run_ofNetwork hrec hd hrun hls).2.2.2
    omega
  · intro hgoes halive steps
    exact exists_run maxParticipants steps hrec halive (hgoes steps)

/-- Two nodes that listen to each other. -/
def facing : Wiring Bool ℕ ℕ where
  peers := fun n _ => [(!n, 0)]
  type := fun _ => 0

/-- Participant, serializer and topic of a node. -/
def setUp (n relay : Bool) : List (NetworkLabel Bool ℕ ℕ ℕ) :=
  [.call n (.addParticipant 0), .registerSerializer n 7 1,
    if relay then .addRelayTopic n 0 7 1 else .addIncomingTopic n 0 7 1]

/-- Two relays that face each other hand a frame back and forth for ever. -/
theorem relay_settles_run : ∃ s : BusNetwork Bool ℕ ℕ ℕ,
    s.received.length = 3 ∧ s.flight = [⟨false, 0, 1, 42, 0⟩] ∧
      ∀ steps, ∃ ls s', (networkLts facing 8).Run s ls s' ∧ (∀ l ∈ ls, IsReceive l) ∧
        ls.length = steps := by
  have hrun := Lts.execWhen_reachable (networkLts facing 8) Lts.always
    (show (networkLts facing 8).init initial from rfl)
    (setUp false true ++ setUp true true ++
      [.publish false 7 42 false 0, .receive ⟨true, 0, 1, 42, 0⟩ 1, .receive ⟨false, 0, 1, 42, 0⟩ 2,
        .receive ⟨true, 0, 1, 42, 0⟩ 3])
    (fun s => (s.received.length = 3 && s.flight = [⟨false, 0, 1, 42, 0⟩]) &&
      (!(s.nodes false).ended && !(s.nodes true).ended) &&
      ∀ n, s.outgoing facing ⟨n, 0, 1, 42, 0⟩ = [⟨!n, 0, 1, 42, 0⟩]) (by decide +kernel)
  rcases hrun with ⟨s, hr, hp⟩
  simp only [Bool.and_eq_true, decide_eq_true_eq, Bool.not_eq_true'] at hp
  rcases hp with ⟨⟨⟨hlen, hflight⟩, hfalse, htrue⟩, hnext⟩
  have hgoes : ∀ d, hops (s.outgoing facing) d s.flight ≠ [] := by
    intro d
    refine hops_ne_nil_of_cycle (P := fun f => ∃ n, f = ⟨n, 0, 1, 42, 0⟩) ?_ ⟨false, rfl⟩ ?_ d
    · rintro f ⟨n, rfl⟩
      exact ⟨⟨!n, 0, 1, 42, 0⟩, by rw [hnext n]; exact List.mem_singleton_self _, !n, rfl⟩
    · rw [hflight]
      exact List.mem_singleton_self _
  refine ⟨s, hlen, hflight, (relay_settles hr).2 hgoes fun n => ?_⟩
  cases n with
  | false => exact hfalse
  | true => exact htrue

/-- Every frame that was sent is on its way, received or lost. What a node hands
to its subscribers is the data of the publish it goes back to, and it is handed
to them once for that publish and once for each frame received: never twice on a
node to which one frame of it was sent, or on its own node if none came back. -/
theorem relay_ledger (hr : (networkLts w maxParticipants).Reachable s) :
    s.sent.Perm (s.flight ++ (s.received ++ s.lost)) ∧
      (∀ e ∈ s.delivered, ∃ p, s.published[e.origin]? = some p ∧ p.data = e.data) ∧
      (∀ x, (s.delivered.map deliveryKey).count x ≤
        (s.published.map publishKey).count x + (s.received.map frameKey).count x) ∧
      ∀ x, (s.published.map publishKey).count x + (s.sent.map frameKey).count x ≤ 1 →
        (s.delivered.map deliveryKey).count x ≤ 1 := by
  have h := ledger_of_reachable hr
  refine ⟨h.perm, h.delivered, h.count, fun x hone => ?_⟩
  have hx := h.count x
  have hsent := (h.perm.map frameKey).count_eq x
  simp only [List.map_append, List.count_append] at hsent
  omega

theorem relay_ledger_run : ∃ s : BusNetwork Bool ℕ ℕ ℕ,
    s.delivered.length = 2 ∧ s.sent.length = 2 ∧
      (s.sent.Perm (s.flight ++ (s.received ++ s.lost)) ∧
        (∀ e ∈ s.delivered, ∃ p, s.published[e.origin]? = some p ∧ p.data = e.data) ∧
        (∀ x, (s.delivered.map deliveryKey).count x ≤
          (s.published.map publishKey).count x + (s.received.map frameKey).count x) ∧
        ∀ x, (s.published.map publishKey).count x + (s.sent.map frameKey).count x ≤ 1 →
          (s.delivered.map deliveryKey).count x ≤ 1) := by
  have hrun := Lts.execWhen_reachable (networkLts facing 8) Lts.always
    (show (networkLts facing 8).init initial from rfl)
    (setUp false true ++ setUp true true ++
      [.call true (.subscribe 7 0 ⟨false, none⟩), .publish false 7 42 false 0,
        .receive ⟨true, 0, 1, 42, 0⟩ 1, .lose ⟨false, 0, 1, 42, 0⟩])
    (fun s => s.delivered.length = 2 && s.sent.length = 2) (by decide +kernel)
  rcases hrun with ⟨s, hr, hp⟩
  simp only [Bool.and_eq_true, decide_eq_true_eq] at hp
  exact ⟨s, hp.1, hp.2, relay_ledger hr⟩

/-- Without relays nothing but a publish sends frames, and left to itself the
network only uses up those that are on their way, one with each step. -/
theorem incoming_settles (hr : (networkLts w maxParticipants).ReachableWhen NoRelay s) :
    s.sent = s.published.flatMap (·.frames) ∧
      ∀ ls s', (networkLts w maxParticipants).Run s ls s' → (∀ l ∈ ls, OfNetwork l) →
        s'.sent = s.sent ∧ ls.length + s'.flight.length = s.flight.length := by
  have h := direct_of_reachable hr
  refine ⟨h.sent, fun ls s' hrun hls => ?_⟩
  rcases h.run (recorded_of_reachable hr) hrun hls with ⟨h', -, hpub, hlen⟩
  refine ⟨?_, hlen⟩
  rw [h'.sent, h.sent, hpub]

theorem incoming_settles_run : ∃ s : BusNetwork Bool ℕ ℕ ℕ, s.flight = [⟨true, 0, 1, 42, 0⟩] ∧
    (s.sent = s.published.flatMap (·.frames) ∧
      ∀ ls s', (networkLts facing 8).Run s ls s' → (∀ l ∈ ls, OfNetwork l) →
        s'.sent = s.sent ∧ ls.length + s'.flight.length = s.flight.length) := by
  have hrun := Lts.execWhen_reachable (networkLts facing 8) NoRelay
    (show (networkLts facing 8).init initial from rfl)
    (setUp false false ++ setUp true false ++
      [.call false (.addRemoteTopic 0 7 1), .publish false 7 42 false 0])
    (fun s => s.flight = [⟨true, 0, 1, 42, 0⟩]) (by decide +kernel)
  rcases hrun with ⟨s, hr, hp⟩
  exact ⟨s, by simpa using hp, incoming_settles hr⟩

end AsyncSqlite
