import AsyncSqlite.Databus.Types
import AsyncSqlite.Remote.Monitor

/-!
# AsyncSqlite.Databus.Unhandled — messages that nobody receives

`InternalPublish` reports a topic as unhandled if no local or remote distribution took
place. Local distribution takes place whenever the topic has a signal, and a signal
that a subscription has created stays when its connections are gone. The report is
therefore missing for a topic whose subscribers have all left, unless a participant
maps it (`unhandled_exact`).

A sequential run: one operation after the other, each of them whole.
-/

namespace AsyncSqlite

universe u v w

/-- A `ScopedConnection` that `Subscribe` has returned and that is not destroyed. -/
structure TopicConnection (Topic : Type u) where
  topic : Topic
  signal : ℕ
  subscriber : ℕ
deriving DecidableEq

/-- What happened in a publish. -/
structure PublishRecord (Topic : Type u) where
  topic : Topic
  localOnly : Bool
  /-- the subscribers that the signal of the topic has invoked -/
  invoked : List ℕ
  /-- a subscriber was connected or, if not `localOnly`, a participant mapped the topic -/
  reached : Bool
  /-- `m_unhandledSignal(topic)` -/
  unhandled : Bool
deriving DecidableEq

structure BusRun (Topic : Type u) (Ty : Type v) (V : Type w) where
  bus : DataBus Topic Ty V
  /-- `m_topicToRemoteId` of each `Participant` -/
  topicToRemoteId : ℕ → Topic → Option DelegateRemoteId
  connections : List (TopicConnection Topic)
  /-- the number of subscriptions so far -/
  subscriptions : ℕ
  published : List (PublishRecord Topic)
  /-- an `ASSERT` has ended the program -/
  ended : Bool

inductive BusOp (Topic : Type u) (Ty : Type v) (V : Type w)
  | subscribe (topic : Topic) (T : Ty) (qos : QoS)
  | disconnect (c : TopicConnection Topic)
  | addParticipant (participant : ℕ)
  | removeParticipant (participant : ℕ)
  | addRemoteTopic (participant : ℕ) (topic : Topic) (remoteId : DelegateRemoteId)
  | publish (topic : Topic) (T : Ty) (data : V) (localOnly : Bool) (now : ℤ)

namespace DataBus

variable {Topic : Type u} {Ty : Type v} {V : Type w}

/-- `Disconnect` of the connection that `connect` has made. -/
def disconnect (b : DataBus Topic Ty V) (p sub : ℕ) : DataBus Topic Ty V :=
  { b with
    objects := b.objects.modify p fun o =>
      { o with subscribers := o.subscribers.filter (· ≠ sub) } }

end DataBus

/-- `Participant::DispatchIfInterested`: whether the participant takes the message. A
topic that it maps is taken with or without a serializer to send it. -/
def dispatchIfInterested {Topic : Type u} {Ty : Type v}
    (topicToRemoteId : Topic → Option DelegateRemoteId) (topic : Topic)
    (serializer : Option (Stored Ty)) : Bool :=
  match topicToRemoteId topic, serializer with
  | none, _ => false
  | some _, none => true
  | some _, some _ => true

namespace BusRun

variable {Topic : Type u} {Ty : Type v} {V : Type w} [DecidableEq Topic] [DecidableEq Ty]

def initial : BusRun Topic Ty V := ⟨.initial, fun _ _ => none, [], 0, [], false⟩

/-- A subscriber of the topic is connected. -/
def connected (s : BusRun Topic Ty V) (topic : Topic) : Bool :=
  s.connections.any (·.topic = topic)

/-- A registered participant maps the topic. -/
def mapped (s : BusRun Topic Ty V) (topic : Topic) : Bool :=
  s.bus.participants.any fun p => (s.topicToRemoteId p topic).isSome

/-- Somebody is there to receive the message. -/
def reached (s : BusRun Topic Ty V) (topic : Topic) (localOnly : Bool) : Bool :=
  s.connected topic || (!localOnly && s.mapped topic)

/-- `InternalSubscribe` -/
def subscribe (topic : Topic) (T : Ty) (qos : QoS) (s : BusRun Topic Ty V) : BusRun Topic Ty V :=
  let r := s.bus.subscribeSignal topic T qos
  match r.result with
  | none => { s with bus := r.bus, ended := true }
  | some p =>
    { s with
      bus := r.bus.connect p s.subscriptions
      connections := s.connections ++ [⟨topic, p, s.subscriptions⟩]
      subscriptions := s.subscriptions + 1 }

/-- The distribution of `InternalPublish`: the result is `handled`. -/
def distribute (s : BusRun Topic Ty V) (q : Publication Ty) (topic : Topic) (localOnly : Bool) :
    Bool :=
  let anyInterested := !localOnly &&
    q.participants.any fun p => dispatchIfInterested (s.topicToRemoteId p) topic q.serializer
  q.signal.isSome || anyInterested

/-- `InternalPublish` -/
def publish (topic : Topic) (T : Ty) (data : V) (localOnly : Bool) (now : ℤ)
    (s : BusRun Topic Ty V) : BusRun Topic Ty V :=
  let r := s.bus.publishLocked topic T data now
  match r.result with
  | none => { s with bus := r.bus, ended := true }
  | some q =>
    { s with
      bus := r.bus
      published := s.published ++
        [{ topic := topic
           localOnly := localOnly
           invoked := (q.signal.map r.bus.getSnapshot).getD []
           reached := s.reached topic localOnly
           unhandled := !s.distribute q topic localOnly }] }

def guard : BusOp Topic Ty V → BusRun Topic Ty V → Prop
  | .disconnect c, s => s.ended = false ∧ c ∈ s.connections
  | _, s => s.ended = false

def update (maxParticipants : ℕ) : BusOp Topic Ty V → BusRun Topic Ty V → BusRun Topic Ty V
  | .subscribe topic T qos, s => s.subscribe topic T qos
  | .disconnect c, s =>
    { s with
      bus := s.bus.disconnect c.signal c.subscriber
      connections := s.connections.erase c }
  | .addParticipant participant, s =>
    match s.bus.internalAddParticipant maxParticipants participant with
    | some bus => { s with bus := bus }
    | none => { s with ended := true }
  | .removeParticipant participant, s =>
    { s with bus := s.bus.internalRemoveParticipant participant }
  | .addRemoteTopic participant topic remoteId, s =>
    { s with
      topicToRemoteId := Function.update s.topicToRemoteId participant
        (Function.update (s.topicToRemoteId participant) topic (some remoteId)) }
  | .publish topic T data localOnly now, s => s.publish topic T data localOnly now

instance : ∀ (l : BusOp Topic Ty V) (s : BusRun Topic Ty V), Decidable (guard l s)
  | .disconnect c, s => inferInstanceAs (Decidable (s.ended = false ∧ c ∈ s.connections))
  | .subscribe .., s | .addParticipant .., s | .removeParticipant .., s | .addRemoteTopic .., s
  | .publish .., s => inferInstanceAs (Decidable (s.ended = false))

/-- A publish of a topic that was subscribed to before finds a receiver. -/
def StillServed : BusOp Topic Ty V → BusRun Topic Ty V → Prop
  | .publish topic T _ localOnly _, s =>
    (s.bus.checkType topic T).isSome = true → (s.bus.signals topic).isSome = true →
      s.reached topic localOnly = true
  | _, _ => True

instance : ∀ (l : BusOp Topic Ty V) (s : BusRun Topic Ty V), Decidable (StillServed l s)
  | .publish topic T _ localOnly _, s =>
    inferInstanceAs (Decidable ((s.bus.checkType topic T).isSome = true →
      (s.bus.signals topic).isSome = true → s.reached topic localOnly = true))
  | .subscribe .., _ | .disconnect .., _ | .addParticipant .., _ | .removeParticipant .., _
  | .addRemoteTopic .., _ => isTrue trivial

end BusRun

def busRunLts (Topic : Type u) (Ty : Type v) (V : Type w) [DecidableEq Topic] [DecidableEq Ty]
    (maxParticipants : ℕ) : Lts (BusRun Topic Ty V) (BusOp Topic Ty V) where
  init := fun s => s = BusRun.initial
  guard := BusRun.guard
  update := BusRun.update maxParticipants

instance {Topic : Type u} {Ty : Type v} {V : Type w} [DecidableEq Topic] [DecidableEq Ty]
    (maxParticipants : ℕ) (l : BusOp Topic Ty V) (s : BusRun Topic Ty V) :
    Decidable ((busRunLts Topic Ty V maxParticipants).guard l s) :=
  inferInstanceAs (Decidable (BusRun.guard l s))

namespace DataBus

variable {Topic : Type u} {Ty : Type v} {V : Type w} {b b' : DataBus Topic Ty V}

/-! ## The operations on signals -/

/-- The signals and the participants are as they were. -/
structure SameSignals (b b' : DataBus Topic Ty V) : Prop where
  signals : b'.signals = b.signals
  objects : b'.objects = b.objects
  participants : b'.participants = b.participants

theorem mem_getSnapshot_connect {p q n sub : ℕ} (hp : p < b.objects.length) :
    n ∈ (b.connect p sub).getSnapshot q ↔ n ∈ b.getSnapshot q ∨ p = q ∧ sub = n := by
  rw [BusState.mem_getSnapshot, BusState.mem_getSnapshot]
  unfold connect
  rw [List.getElem?_modify]
  by_cases hpq : p = q
  · subst hpq
    rw [List.getElem?_eq_getElem hp]
    simp only [if_true, Option.map_eq_map, Option.map_some, Option.some.injEq, exists_eq_left',
      List.mem_append, List.mem_singleton, true_and]
    exact or_congr_right eq_comm
  · cases ho : b.objects[q]? <;> simp [hpq]

theorem mem_getSnapshot_disconnect {p q n sub : ℕ} :
    n ∈ (b.disconnect p sub).getSnapshot q ↔ n ∈ b.getSnapshot q ∧ ¬ (p = q ∧ sub = n) := by
  rw [BusState.mem_getSnapshot, BusState.mem_getSnapshot]
  unfold disconnect
  rw [List.getElem?_modify]
  by_cases hpq : p = q
  · subst hpq
    cases ho : b.objects[p]? <;> simp [@eq_comm _ n sub]
  · cases ho : b.objects[q]? <;> simp [hpq]

/-- A new signal has no subscribers. -/
theorem mem_getSnapshot_create {T : Ty} (hobjects : b'.objects = b.objects ++ [⟨T, []⟩])
    {q n : ℕ} : n ∈ b'.getSnapshot q ↔ n ∈ b.getSnapshot q := by
  rw [BusState.mem_getSnapshot, BusState.mem_getSnapshot, hobjects]
  constructor
  · rintro ⟨o, ho, hn⟩
    rcases Nat.lt_or_ge q b.objects.length with hlt | hge
    · rw [List.getElem?_append_left hlt] at ho
      exact ⟨o, ho, hn⟩
    · rw [List.getElem?_append_right hge] at ho
      have hmem := List.mem_of_getElem? ho
      rw [List.mem_singleton] at hmem
      rw [hmem] at hn
      exact absurd hn List.not_mem_nil
  · rintro ⟨o, ho, hn⟩
    have hlt := (List.getElem?_eq_some_iff.mp ho).1
    refine ⟨o, ?_, hn⟩
    rw [List.getElem?_append_left hlt]
    exact ho

variable [DecidableEq Topic] [DecidableEq Ty] {topic : Topic} {T : Ty}

theorem sameSignals_checkType (h : b.checkType topic T = some b') : SameSignals b b' := by
  rw [(checkType_eq_some h).2]
  exact ⟨rfl, rfl, rfl⟩

/-- The first section of a subscribe call finds the signal of the topic, creates one, or
finds another type. -/
theorem subscribeSignal_cases (b : DataBus Topic Ty V) (topic : Topic) (T : Ty) (qos : QoS) :
    (SameSignals b (b.subscribeSignal topic T qos).bus ∧
      ∀ p, (b.subscribeSignal topic T qos).result = some p → b.signals topic = some p) ∨
    (b.signals topic = none ∧
      (b.subscribeSignal topic T qos).result = some b.objects.length ∧
      (b.subscribeSignal topic T qos).bus.signals =
        Function.update b.signals topic (some b.objects.length) ∧
      (b.subscribeSignal topic T qos).bus.objects = b.objects ++ [⟨T, []⟩] ∧
      (b.subscribeSignal topic T qos).bus.participants = b.participants) := by
  have hflag :
      SameSignals b (if qos.lastValueCache then b.setLastValueCache topic true else b) := by
    split
    · exact ⟨rfl, rfl, rfl⟩
    · exact ⟨rfl, rfl, rfl⟩
  unfold subscribeSignal getOrCreateSignal
  dsimp only
  generalize (if qos.lastValueCache then b.setLastValueCache topic true else b) = b₀ at hflag ⊢
  cases hc : b₀.checkType topic T with
  | none =>
    left
    exact ⟨hflag, fun p hp => nomatch hp⟩
  | some b₁ =>
    have hcheck := sameSignals_checkType hc
    have hsignals : b₁.signals = b.signals := hcheck.signals.trans hflag.signals
    have hobjects : b₁.objects = b.objects := hcheck.objects.trans hflag.objects
    have hparticipants : b₁.participants = b.participants :=
      hcheck.participants.trans hflag.participants
    dsimp only
    -- the flag and the type of the topic are in place: is there a signal already?
    cases hs : b₁.signals topic with
    | some p =>
      left
      refine ⟨⟨hsignals, hobjects, hparticipants⟩, fun q hq => ?_⟩
      rw [← hsignals, hs]
      exact hq
    | none =>
      right
      rw [← hsignals, ← hobjects]
      exact ⟨hs, rfl, rfl, rfl, hparticipants⟩

/-- What a publish finds in its critical section. -/
theorem publishLocked_spec (b : DataBus Topic Ty V) (topic : Topic) (T : Ty) (data : V) (now : ℤ) :
    SameSignals b (b.publishLocked topic T data now).bus ∧
      ((b.publishLocked topic T data now).result.isSome = (b.checkType topic T).isSome) ∧
      ∀ q, (b.publishLocked topic T data now).result = some q →
        q.signal = b.signals topic ∧ q.participants = b.participants := by
  unfold publishLocked
  cases hc : b.checkType topic T with
  | none => exact ⟨⟨rfl, rfl, rfl⟩, rfl, fun q hq => nomatch hq⟩
  | some b₁ =>
    have hcheck := sameSignals_checkType hc
    have ⟨lastValues, hframe⟩ := storeLastValue_frame b₁ topic T data now
    dsimp only
    rw [hframe]
    refine ⟨⟨hcheck.signals, hcheck.objects, hcheck.participants⟩, rfl, fun q hq => ?_⟩
    have hq := Option.some.inj hq
    rw [← hq]
    exact ⟨congrFun hcheck.signals topic, hcheck.participants⟩

end DataBus

namespace BusRun

variable {Topic : Type u} {Ty : Type v} {V : Type w} [DecidableEq Topic] [DecidableEq Ty]
variable {s : BusRun Topic Ty V} {maxParticipants : ℕ}

/-! ## Signals and connections -/

/-- The connections that are not destroyed are what is left in the signals. -/
structure SlotInv (s : BusRun Topic Ty V) : Prop where
  bounded : ∀ topic p, s.bus.signals topic = some p → p < s.bus.objects.length
  injective : ∀ topic topic' p, s.bus.signals topic = some p → s.bus.signals topic' = some p →
    topic = topic'
  signal : ∀ c ∈ s.connections, s.bus.signals c.topic = some c.signal
  slots : ∀ p n, n ∈ s.bus.getSnapshot p ↔ ∃ c ∈ s.connections, c.signal = p ∧ c.subscriber = n
  distinct : (s.connections.map (·.subscriber)).Nodup
  fresh : ∀ c ∈ s.connections, c.subscriber < s.subscriptions

omit [DecidableEq Topic] [DecidableEq Ty] in
theorem SlotInv.initial : SlotInv (initial : BusRun Topic Ty V) := by
  constructor
  · intro topic p h
    cases h
  · intro topic topic' p h
    cases h
  · intro c hc
    cases hc
  · intro p n
    constructor
    · intro hn
      simp [DataBus.getSnapshot, BusRun.initial, DataBus.initial] at hn
    · rintro ⟨c, hc, -⟩
      cases hc
  · exact List.nodup_nil
  · intro c hc
    cases hc

omit [DecidableEq Topic] [DecidableEq Ty] in
/-- A step that changes neither the signals nor the connections. -/
theorem SlotInv.congr (h : SlotInv s) {s' : BusRun Topic Ty V}
    (hsignals : s'.bus.signals = s.bus.signals) (hobjects : s'.bus.objects = s.bus.objects)
    (hconn : s'.connections = s.connections) (hcount : s'.subscriptions = s.subscriptions) :
    SlotInv s' := by
  have hsnap : ∀ p, s'.bus.getSnapshot p = s.bus.getSnapshot p := by
    intro p
    unfold DataBus.getSnapshot
    rw [hobjects]
  constructor
  · rw [hsignals, hobjects]
    exact h.bounded
  · rw [hsignals]
    exact h.injective
  · rw [hsignals, hconn]
    exact h.signal
  · intro p n
    rw [hsnap, hconn]
    exact h.slots p n
  · rw [hconn]
    exact h.distinct
  · rw [hconn, hcount]
    exact h.fresh

omit [DecidableEq Topic] [DecidableEq Ty] in
/-- A subscription goes to the signal of its topic. -/
theorem SlotInv.connect (h : SlotInv s) {topic : Topic} {p : ℕ}
    (hp : s.bus.signals topic = some p) :
    SlotInv { s with
      bus := s.bus.connect p s.subscriptions
      connections := s.connections ++ [⟨topic, p, s.subscriptions⟩]
      subscriptions := s.subscriptions + 1 } := by
  have hbound := h.bounded topic p hp
  constructor
  · intro topic' q hq
    show q < (s.bus.objects.modify p _).length
    rw [List.length_modify]
    exact h.bounded topic' q hq
  · exact h.injective
  · intro c hc
    rcases List.mem_append.mp hc with hc | hc
    · exact h.signal c hc
    · rw [List.mem_singleton.mp hc]
      exact hp
  · -- the signal has one subscriber more, which is that of the new connection
    intro q n
    rw [DataBus.mem_getSnapshot_connect hbound, h.slots]
    constructor
    · rintro (⟨c, hc, hcq, hcn⟩ | ⟨hq, hn⟩)
      · exact ⟨c, List.mem_append_left _ hc, hcq, hcn⟩
      · exact ⟨_, List.mem_append_right _ (List.mem_singleton.mpr rfl), hq, hn⟩
    · rintro ⟨c, hc, hcq, hcn⟩
      rcases List.mem_append.mp hc with hc | hc
      · exact Or.inl ⟨c, hc, hcq, hcn⟩
      · rw [List.mem_singleton.mp hc] at hcq hcn
        exact Or.inr ⟨hcq, hcn⟩
  · rw [List.map_append, List.nodup_append]
    refine ⟨h.distinct, List.nodup_singleton _, ?_⟩
    intro n hn m hm hnm
    rcases List.mem_map.mp hn with ⟨c, hc, rfl⟩
    have hlt := h.fresh c hc
    have heq : m = s.subscriptions := List.mem_singleton.mp hm
    omega
  · intro c hc
    rcases List.mem_append.mp hc with hc | hc
    · exact Nat.lt_succ_of_lt (h.fresh c hc)
    · rw [List.mem_singleton.mp hc]
      exact Nat.lt_succ_self _

omit [DecidableEq Ty] in
/-- A new signal, for a topic that had none. -/
theorem SlotInv.create (h : SlotInv s) {topic : Topic} {T : Ty} {b : DataBus Topic Ty V}
    (hnone : s.bus.signals topic = none)
    (hsignals : b.signals = Function.update s.bus.signals topic (some s.bus.objects.length))
    (hobjects : b.objects = s.bus.objects ++ [⟨T, []⟩]) : SlotInv { s with bus := b } := by
  -- a signal is the new one or one of the old ones
  have hold : ∀ topic' p, b.signals topic' = some p →
      topic' = topic ∧ p = s.bus.objects.length ∨
        topic' ≠ topic ∧ s.bus.signals topic' = some p := by
    intro topic' p hp
    rw [hsignals] at hp
    by_cases heq : topic' = topic
    · subst heq
      rw [Function.update_self] at hp
      exact Or.inl ⟨rfl, (Option.some.inj hp).symm⟩
    · rw [Function.update_of_ne heq] at hp
      exact Or.inr ⟨heq, hp⟩
  constructor
  · intro topic' p hp
    show p < b.objects.length
    rw [hobjects, List.length_append, List.length_singleton]
    rcases hold topic' p hp with ⟨-, hlast⟩ | ⟨-, hp⟩
    · omega
    · have hlt := h.bounded topic' p hp
      omega
  · intro t t' p hp hp'
    rcases hold t p hp with ⟨ht, hlast⟩ | ⟨-, hp⟩
    · rcases hold t' p hp' with ⟨ht', -⟩ | ⟨-, hp'⟩
      · rw [ht, ht']
      · have hlt := h.bounded t' p hp'
        omega
    · rcases hold t' p hp' with ⟨-, hlast⟩ | ⟨-, hp'⟩
      · have hlt := h.bounded t p hp
        omega
      · exact h.injective t t' p hp hp'
  · intro c hc
    have hthis := h.signal c hc
    have hne : c.topic ≠ topic := by
      intro heq
      rw [heq, hnone] at hthis
      cases hthis
    show b.signals c.topic = some c.signal
    rw [hsignals, Function.update_of_ne hne]
    exact hthis
  · intro p n
    rw [DataBus.mem_getSnapshot_create hobjects]
    exact h.slots p n
  · exact h.distinct
  · exact h.fresh

omit [DecidableEq Ty] in
theorem SlotInv.disconnect (h : SlotInv s) {c : TopicConnection Topic} (hc : c ∈ s.connections) :
    SlotInv { s with
      bus := s.bus.disconnect c.signal c.subscriber
      connections := s.connections.erase c } := by
  have hnodup : s.connections.Nodup := h.distinct.of_map _
  have hmem : ∀ c' ∈ s.connections.erase c, c' ∈ s.connections ∧ c' ≠ c := by
    intro c' hc'
    have hthis := (hnodup.mem_erase_iff).mp hc'
    exact ⟨hthis.2, hthis.1⟩
  constructor
  · intro topic p hp
    show p < (s.bus.objects.modify c.signal _).length
    rw [List.length_modify]
    exact h.bounded topic p hp
  · exact h.injective
  · intro c' hc'
    exact h.signal c' (hmem c' hc').1
  · intro p n
    rw [DataBus.mem_getSnapshot_disconnect, h.slots]
    constructor
    · rintro ⟨⟨c', hc', hp, hn⟩, hnot⟩
      refine ⟨c', (hnodup.mem_erase_iff).mpr ⟨?_, hc'⟩, hp, hn⟩
      rintro rfl
      exact hnot ⟨hp, hn⟩
    · rintro ⟨c', hc', hp, hn⟩
      have ⟨hin, hne⟩ := hmem c' hc'
      refine ⟨⟨c', hin, hp, hn⟩, fun hsame => hne ?_⟩
      -- no other connection has the subscriber of this one
      exact List.inj_on_of_nodup_map h.distinct hin hc (hn.trans hsame.2.symm)
  · exact h.distinct.sublist ((List.erase_sublist).map _)
  · intro c' hc'
    exact h.fresh c' (hmem c' hc').1

theorem SlotInv.step (h : SlotInv s) {l : BusOp Topic Ty V} (hg : guard l s) :
    SlotInv (update maxParticipants l s) := by
  cases l with
  | subscribe topic T qos =>
    show SlotInv (s.subscribe topic T qos)
    unfold BusRun.subscribe
    dsimp only
    rcases s.bus.subscribeSignal_cases topic T qos with ⟨hsame, hresult⟩ |
      ⟨hnone, hresult, hsignals, hobjects, -⟩
    · -- the topic has a signal, or the subscription ends the program
      have hbus : SlotInv { s with bus := (s.bus.subscribeSignal topic T qos).bus } :=
        h.congr hsame.signals hsame.objects rfl rfl
      split
      · exact hbus.congr rfl rfl rfl rfl
      case h_2 p hp =>
        apply hbus.connect
        rw [hsame.signals]
        exact hresult p hp
    · have hbus := h.create hnone hsignals hobjects
      rw [hresult]
      apply hbus.connect
      rw [hsignals, Function.update_self]
  | disconnect c => exact h.disconnect hg.2
  | addParticipant participant =>
    show SlotInv (match s.bus.internalAddParticipant maxParticipants participant with
      | some bus => { s with bus := bus }
      | none => { s with ended := true })
    unfold DataBus.internalAddParticipant
    by_cases hroom : s.bus.participants.length < maxParticipants
    · rw [if_pos hroom]
      exact h.congr rfl rfl rfl rfl
    · rw [if_neg hroom]
      exact h.congr rfl rfl rfl rfl
  | removeParticipant participant => exact h.congr rfl rfl rfl rfl
  | addRemoteTopic participant topic remoteId => exact h.congr rfl rfl rfl rfl
  | publish topic T data localOnly now =>
    have hsame := (s.bus.publishLocked_spec topic T data now).1
    show SlotInv (s.publish topic T data localOnly now)
    unfold BusRun.publish
    dsimp only
    split
    · exact h.congr hsame.signals hsame.objects rfl rfl
    · exact h.congr hsame.signals hsame.objects rfl rfl

theorem slots_of_reachable {ok : BusOp Topic Ty V → BusRun Topic Ty V → Prop}
    (hr : (busRunLts Topic Ty V maxParticipants).ReachableWhen ok s) : SlotInv s := by
  apply hr.induct
  · rintro s rfl
    exact SlotInv.initial
  · intro l s _ hg _ h
    exact h.step hg

omit [DecidableEq Topic] [DecidableEq Ty] in
/-- The subscribers in the signal of a topic are those that are connected. -/
theorem SlotInv.subscribers (h : SlotInv s) (topic : Topic) (n : ℕ) :
    (∃ p, s.bus.signals topic = some p ∧ n ∈ s.bus.getSnapshot p) ↔
      ∃ c ∈ s.connections, c.topic = topic ∧ c.subscriber = n := by
  constructor
  · rintro ⟨p, hp, hn⟩
    rcases (h.slots p n).mp hn with ⟨c, hc, rfl, hcn⟩
    exact ⟨c, hc, h.injective _ _ _ (h.signal c hc) hp, hcn⟩
  · rintro ⟨c, hc, rfl, hcn⟩
    exact ⟨c.signal, h.signal c hc, (h.slots c.signal n).mpr ⟨c, hc, rfl, hcn⟩⟩

/-! ## One publish -/

omit [DecidableEq Topic] [DecidableEq Ty] in
theorem dispatchIfInterested_eq (topicToRemoteId : Topic → Option DelegateRemoteId)
    (topic : Topic) (serializer : Option (Stored Ty)) :
    dispatchIfInterested topicToRemoteId topic serializer = (topicToRemoteId topic).isSome := by
  unfold dispatchIfInterested
  cases topicToRemoteId topic with
  | none => rfl
  | some remoteId => cases serializer <;> rfl

omit [DecidableEq Topic] [DecidableEq Ty] in
/-- A publish is handled if the topic has a signal or, unless it is local, a mapping. -/
theorem distribute_eq {q : Publication Ty} {topic : Topic} (localOnly : Bool)
    (hsignal : q.signal = s.bus.signals topic)
    (hparticipants : q.participants = s.bus.participants) :
    s.distribute q topic localOnly =
      ((s.bus.signals topic).isSome || (!localOnly && s.mapped topic)) := by
  unfold distribute mapped
  simp only [dispatchIfInterested_eq, hsignal, hparticipants]

omit [DecidableEq Ty] in
theorem SlotInv.isSome_of_connected (h : SlotInv s) {topic : Topic}
    (hc : s.connected topic = true) : (s.bus.signals topic).isSome = true := by
  rcases List.any_eq_true.mp hc with ⟨c, hmem, heq⟩
  rw [← of_decide_eq_true heq, h.signal c hmem]
  rfl

/-- The publish of a topic of another type ends the program. -/
theorem publish_mismatch {topic : Topic} {T : Ty} (data : V) (localOnly : Bool) (now : ℤ)
    (hc : (s.bus.checkType topic T).isSome = false) :
    (s.publish topic T data localOnly now).published = s.published := by
  have hresult := (s.bus.publishLocked_spec topic T data now).2.1
  rw [hc] at hresult
  have hnone := Option.isNone_iff_eq_none.mp (Option.isSome_eq_false_iff.mp hresult)
  unfold publish
  dsimp only
  rw [hnone]

/-- The report is exact if and only if somebody is there to receive the message, or the
topic has no signal. -/
theorem SlotInv.publish_exact (h : SlotInv s) {topic : Topic} {T : Ty} (data : V)
    (localOnly : Bool) (now : ℤ) (hc : (s.bus.checkType topic T).isSome = true) :
    ∃ r, (s.publish topic T data localOnly now).published = s.published ++ [r] ∧
      ((r.unhandled = true ↔ r.reached = false) ↔
        ((s.bus.signals topic).isSome = true → s.reached topic localOnly = true)) := by
  have ⟨_, hresult, hq⟩ := s.bus.publishLocked_spec topic T data now
  rw [hc] at hresult
  rcases Option.isSome_iff_exists.mp hresult with ⟨q, heq⟩
  have ⟨hsignal, hparticipants⟩ := hq q heq
  have hhandled := distribute_eq localOnly hsignal hparticipants
  have hconn : s.connected topic = true → (s.bus.signals topic).isSome = true :=
    h.isSome_of_connected
  unfold publish
  dsimp only
  rw [heq]
  refine ⟨_, rfl, ?_⟩
  dsimp only
  rw [hhandled]
  unfold reached
  -- a subscriber has a signal: four cases are left
  cases hs : (s.bus.signals topic).isSome with
  | true =>
    cases s.connected topic <;> cases (!localOnly && s.mapped topic) <;> decide
  | false =>
    rw [hs] at hconn
    have hnone : s.connected topic = false := Bool.eq_false_iff.mpr fun hc => nomatch hconn hc
    rw [hnone]
    cases (!localOnly && s.mapped topic) <;> decide

/-! ## Every run -/

/-- The reports so far are exact. -/
def AllExact (s : BusRun Topic Ty V) : Prop :=
  ∀ r ∈ s.published, r.unhandled = true ↔ r.reached = false

theorem AllExact.step (h : AllExact s) (hslots : SlotInv s) {l : BusOp Topic Ty V}
    (hok : StillServed l s) : AllExact (update maxParticipants l s) := by
  cases l with
  | subscribe topic T qos =>
    show AllExact (s.subscribe topic T qos)
    unfold BusRun.subscribe
    dsimp only
    split
    · exact h
    · exact h
  | disconnect c => exact h
  | addParticipant participant =>
    unfold update
    dsimp only
    split
    · exact h
    · exact h
  | removeParticipant participant => exact h
  | addRemoteTopic participant topic remoteId => exact h
  -- only a publish reports anything
  | publish topic T data localOnly now =>
    cases hc : (s.bus.checkType topic T).isSome with
    | false =>
      intro r hr
      apply h
      rw [← publish_mismatch data localOnly now hc]
      exact hr
    | true =>
      have ⟨r, hpublished, hexact⟩ := hslots.publish_exact data localOnly now hc
      intro r' hr'
      have hmem : r' ∈ (s.publish topic T data localOnly now).published := hr'
      rw [hpublished] at hmem
      rcases List.mem_append.mp hmem with hold | hnew
      · exact h r' hold
      · rw [List.mem_singleton.mp hnew]
        exact hexact.mpr (hok hc)

/-- A step that does not meet the condition is a publish, and its report is wrong. -/
theorem wrong_of_not_stillServed (h : SlotInv s) {l : BusOp Topic Ty V}
    (hok : ¬ StillServed l s) :
    ∃ r, (update maxParticipants l s).published = s.published ++ [r] ∧
      ¬ (r.unhandled = true ↔ r.reached = false) := by
  cases l with
  | publish topic T data localOnly now =>
    rcases Classical.not_imp.mp hok with ⟨hc, hserved⟩
    have ⟨r, hpublished, hexact⟩ := h.publish_exact data localOnly now hc
    exact ⟨r, hpublished, fun hr => hserved (hexact.mp hr)⟩
  | subscribe topic T qos => exact absurd trivial hok
  | disconnect c => exact absurd trivial hok
  | addParticipant participant => exact absurd trivial hok
  | removeParticipant participant => exact absurd trivial hok
  | addRemoteTopic participant topic remoteId => exact absurd trivial hok

end BusRun

/-- In a run all of whose publishes find a receiver if their topic was subscribed to
before, a publish is reported as unhandled if and only if nobody is there to receive it.
A publish that finds none is not reported. The connections of a topic are the subscribers
that its signal invokes. -/
theorem unhandled_exact {Topic : Type u} {Ty : Type v} {V : Type w} [DecidableEq Topic]
    [DecidableEq Ty] (maxParticipants : ℕ) :
    (∀ s, (busRunLts Topic Ty V maxParticipants).ReachableWhen BusRun.StillServed s →
      ∀ r ∈ s.published, r.unhandled = true ↔ r.reached = false) ∧
    (∀ s l, (busRunLts Topic Ty V maxParticipants).Reachable s →
      (busRunLts Topic Ty V maxParticipants).guard l s → ¬ BusRun.StillServed l s →
      ∃ r, (BusRun.update maxParticipants l s).published = s.published ++ [r] ∧
        ¬ (r.unhandled = true ↔ r.reached = false)) ∧
    ∀ s, (busRunLts Topic Ty V maxParticipants).Reachable s → ∀ topic n,
      (∃ p, s.bus.signals topic = some p ∧ n ∈ s.bus.getSnapshot p) ↔
        ∃ c ∈ s.connections, c.topic = topic ∧ c.subscriber = n := by
  refine ⟨?_, ?_, ?_⟩
  · intro s hr
    have hall : BusRun.SlotInv s ∧ BusRun.AllExact s := by
      apply hr.induct
      · rintro s rfl
        constructor
        · exact BusRun.SlotInv.initial
        · intro r hr
          cases hr
      · intro l s _ hg hok ih
        constructor
        · exact ih.1.step hg
        · exact ih.2.step ih.1 hok
    exact hall.2
  · intro s l hr _ hok
    exact BusRun.wrong_of_not_stillServed (BusRun.slots_of_reachable hr) hok
  · intro s hr topic n
    exact (BusRun.slots_of_reachable hr).subscribers topic n

/-- Topic 0 has no subscriber, then one; when that has left, participant 5 maps the topic;
topic 1 has none. When the participant is removed as well, nobody receives topic 0. -/
theorem unhandled_exact_run :
    (∃ s, (busRunLts ℕ ℕ ℕ 2).ReachableWhen BusRun.StillServed s ∧
      s.published.map (fun r => (r.invoked, r.unhandled)) =
        [([], true), ([0], false), ([], false), ([], true)] ∧
      (∀ r ∈ s.published, r.unhandled = true ↔ r.reached = false) ∧
      ((∃ p, s.bus.signals 0 = some p ∧ 0 ∈ s.bus.getSnapshot p) ↔
        ∃ c ∈ s.connections, c.topic = 0 ∧ c.subscriber = 0)) ∧
    ∃ s, (busRunLts ℕ ℕ ℕ 2).Reachable s ∧
      ∃ r, (BusRun.update 2 (.publish 0 7 10 false 5) s).published = s.published ++ [r] ∧
        ¬ (r.unhandled = true ↔ r.reached = false) := by
  have hinit : (busRunLts ℕ ℕ ℕ 2).init BusRun.initial := rfl
  constructor
  · obtain ⟨s, hs, hp⟩ := (busRunLts ℕ ℕ ℕ 2).execWhen_reachable BusRun.StillServed hinit
      [.publish 0 7 10 false 0, .subscribe 0 7 ⟨false, none⟩, .publish 0 7 11 false 1,
        .addParticipant 5, .addRemoteTopic 5 0 40, .disconnect ⟨0, 0, 0⟩,
        .publish 0 7 12 false 2, .publish 1 7 13 true 3]
      (fun s => s.published.map (fun r => (r.invoked, r.unhandled)) =
        [([], true), ([0], false), ([], false), ([], true)]) (by decide +kernel)
    exact ⟨s, hs, of_decide_eq_true hp, (unhandled_exact 2).1 s hs,
      (unhandled_exact 2).2.2 s hs.reachable 0 0⟩
  · obtain ⟨s, hs, hp⟩ := (busRunLts ℕ ℕ ℕ 2).execWhen_reachable Lts.always hinit
      [.subscribe 0 7 ⟨false, none⟩, .addParticipant 5, .addRemoteTopic 5 0 40,
        .disconnect ⟨0, 0, 0⟩, .removeParticipant 5]
      (fun s => decide (BusRun.guard (.publish 0 7 10 false 5) s) &&
        !decide (BusRun.StillServed (.publish 0 7 10 false 5) s)) (by decide +kernel)
    rw [Bool.and_eq_true, Bool.not_eq_true'] at hp
    exact ⟨s, hs, (unhandled_exact 2).2.1 s _ hs (of_decide_eq_true hp.1)
      (of_decide_eq_false hp.2)⟩

/-- The only subscriber of topic 0 leaves: the next publish reaches nobody and is not
reported. -/
theorem unhandled_misses_left : ∃ s : BusRun ℕ ℕ ℕ, (busRunLts ℕ ℕ ℕ 2).Reachable s ∧
    ∃ r ∈ s.published, r.reached = false ∧ r.invoked = [] ∧
      ¬ (r.unhandled = true ↔ r.reached = false) := by
  have hinit : (busRunLts ℕ ℕ ℕ 2).init BusRun.initial := rfl
  obtain ⟨s, hs, hp⟩ := (busRunLts ℕ ℕ ℕ 2).execWhen_reachable Lts.always hinit
    [.subscribe 0 7 ⟨false, none⟩, .disconnect ⟨0, 0, 0⟩, .publish 0 7 10 false 0]
    (fun s => s.published = [⟨0, false, [], false, false⟩]) (by decide +kernel)
  have heq := of_decide_eq_true hp
  refine ⟨s, hs, ⟨0, false, [], false, false⟩, ?_, rfl, rfl, by decide⟩
  rw [heq]
  exact List.mem_singleton.mpr rfl

end AsyncSqlite
