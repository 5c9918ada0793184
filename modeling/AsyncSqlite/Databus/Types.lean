import AsyncSqlite.Data.Log
import AsyncSqlite.Databus.Model

/-!
# AsyncSqlite.Databus.Types — one topic, one type

`DataBus.Typed` says that every object that is stored for a topic was created for
the type recorded for the topic. `DataBus.Extends` is what no section of any call
undoes: a recorded type, a signal, a subscriber. Both are proved once per section;
`calls_of_reachable` adds that a subscribe call that got a signal still has it,
and `one_topic_one_type` is the result for every interleaving.
-/

namespace AsyncSqlite

universe u v w

namespace DataBus

variable {Topic : Type u} {Ty : Type v} {V : Type w}
variable {b b' b'' : DataBus Topic Ty V} {topic : Topic} {T : Ty}

/-! ## What is never undone -/

structure Extends (b b' : DataBus Topic Ty V) : Prop where
  types : ∀ topic T, b.typeIndices topic = some T → b'.typeIndices topic = some T
  signals : ∀ topic p, b.signals topic = some p → b'.signals topic = some p
  objects : ∀ (p : ℕ) (o : SignalObject Ty), b.objects[p]? = some o →
    ∃ o' : SignalObject Ty, b'.objects[p]? = some o' ∧
      o'.created = o.created ∧ ∀ n ∈ o.subscribers, n ∈ o'.subscribers

theorem Extends.refl (b : DataBus Topic Ty V) : b.Extends b :=
  ⟨fun _ _ h => h, fun _ _ h => h, fun _ o h => ⟨o, h, rfl, fun _ hn => hn⟩⟩

theorem Extends.trans (h : b.Extends b') (h' : b'.Extends b'') : b.Extends b'' := by
  constructor
  · intro topic T ht
    exact h'.types topic T (h.types topic T ht)
  · intro topic p hp
    exact h'.signals topic p (h.signals topic p hp)
  · intro p o ho
    obtain ⟨o', ho', hc', hs'⟩ := h.objects p o ho
    obtain ⟨o'', ho'', hc'', hs''⟩ := h'.objects p o' ho'
    exact ⟨o'', ho'', hc''.trans hc', fun n hn => hs'' n (hs' n hn)⟩

theorem Extends.typeOf (h : b.Extends b') {p : ℕ} (hp : b.typeOf p = some T) :
    b'.typeOf p = some T := by
  obtain ⟨o, ho, rfl⟩ := Option.map_eq_some_iff.mp hp
  obtain ⟨o', ho', hc, -⟩ := h.objects p o ho
  exact Option.map_eq_some_iff.mpr ⟨o', ho', hc⟩

/-- Tables that differ in neither types, signals nor objects. -/
theorem Extends.of_eq (ht : b'.typeIndices = b.typeIndices) (hs : b'.signals = b.signals)
    (ho : b'.objects = b.objects) : b.Extends b' := by
  constructor
  · intro topic T h
    rwa [ht]
  · intro topic p h
    rwa [hs]
  · intro p o h
    exact ⟨o, by rwa [ho], rfl, fun _ hn => hn⟩

theorem extends_connect (b : DataBus Topic Ty V) (p sub : ℕ) : b.Extends (b.connect p sub) := by
  constructor
  · exact fun _ _ h => h
  · exact fun _ _ h => h
  · intro q o ho
    unfold connect
    by_cases hq : p = q
    · subst hq
      refine ⟨{ o with subscribers := o.subscribers ++ [sub] }, ?_, rfl, ?_⟩
      · simp [ho]
      · intro n hn
        exact List.mem_append_left _ hn
    · exact ⟨o, by simpa [List.getElem?_modify, hq] using ho, rfl, fun _ hn => hn⟩

/-! ## Every object has the type of its topic -/

structure Typed (b : DataBus Topic Ty V) : Prop where
  signals : ∀ topic p, b.signals topic = some p →
    ∃ T, b.typeIndices topic = some T ∧ b.typeOf p = some T
  serializers : ∀ topic o, b.serializers topic = some o → b.typeIndices topic = some o.created
  stringifiers : ∀ topic o, b.stringifiers topic = some o → b.typeIndices topic = some o.created
  lastValues : ∀ topic e, b.lastValues topic = some e →
    b.typeIndices topic = some e.created ∧ e.live = e.created

theorem Typed.initial (participants : List ℕ) :
    Typed ({ DataBus.initial with participants := participants } : DataBus Topic Ty V) := by
  constructor <;> simp [DataBus.initial]

/-- The signal of a topic has the recorded type. -/
theorem Typed.typeOf (h : b.Typed) {p : ℕ} (hp : b.signals topic = some p)
    (ht : b.typeIndices topic = some T) : b.typeOf p = some T := by
  obtain ⟨T', ht', hT'⟩ := h.signals topic p hp
  rw [ht] at ht'
  rwa [Option.some.inj ht']

/-- Objects that stay, over types and signals that are never undone. -/
theorem Typed.extend (h : b.Typed) (he : b.Extends b') (hsig : b'.signals = b.signals)
    (hser : b'.serializers = b.serializers) (hstr : b'.stringifiers = b.stringifiers)
    (hlast : b'.lastValues = b.lastValues) : b'.Typed := by
  constructor
  · intro topic p hp
    rw [hsig] at hp
    obtain ⟨T, ht, hT⟩ := h.signals topic p hp
    exact ⟨T, he.types topic T ht, he.typeOf hT⟩
  · intro topic o ho
    rw [hser] at ho
    exact he.types topic _ (h.serializers topic o ho)
  · intro topic o ho
    rw [hstr] at ho
    exact he.types topic _ (h.stringifiers topic o ho)
  · intro topic e hev
    rw [hlast] at hev
    exact ⟨he.types topic _ (h.lastValues topic e hev).1, (h.lastValues topic e hev).2⟩

theorem Typed.connect (h : b.Typed) (p sub : ℕ) : (b.connect p sub).Typed :=
  h.extend (extends_connect b p sub) rfl rfl rfl rfl

/-! ## The type check -/

variable [DecidableEq Topic] [DecidableEq Ty]

theorem checkType_eq_none :
    b.checkType topic T = none ↔ ∃ t, b.typeIndices topic = some t ∧ t ≠ T := by
  unfold checkType
  cases h : b.typeIndices topic with
  | none => simp
  | some t => by_cases ht : t = T <;> simp [ht]

/-- A check that succeeds leaves the type recorded, and changes nothing else. -/
theorem checkType_eq_some (h : b.checkType topic T = some b') :
    (b.typeIndices topic = none ∨ b.typeIndices topic = some T) ∧
      b' = { b with typeIndices := Function.update b.typeIndices topic (some T) } := by
  unfold checkType at h
  cases ht : b.typeIndices topic with
  | none =>
    simp only [ht, Option.some.injEq] at h
    exact ⟨Or.inl rfl, h.symm⟩
  | some t =>
    by_cases heq : t = T
    · subst heq
      simp only [ht, if_true, Option.some.injEq] at h
      refine ⟨Or.inr rfl, ?_⟩
      rw [← ht, Function.update_eq_self]
      exact h.symm
    · simp [ht, heq] at h

theorem checkType_recorded (h : b.checkType topic T = some b') :
    b'.typeIndices topic = some T := by
  rw [(checkType_eq_some h).2]
  exact Function.update_self ..

theorem extends_checkType (h : b.checkType topic T = some b') : b.Extends b' := by
  obtain ⟨hfree, rfl⟩ := checkType_eq_some h
  constructor
  · intro topic' T' h'
    by_cases heq : topic' = topic
    · subst heq
      rcases hfree with hfree | hfree
      · rw [hfree] at h'
        cases h'
      · rw [hfree] at h'
        simpa using h'
    · simpa [Function.update_of_ne heq] using h'
  · exact fun _ _ h' => h'
  · exact fun _ o ho => ⟨o, ho, rfl, fun _ hn => hn⟩

/-! ## The sections -/

omit [DecidableEq Ty] in
theorem extends_setLastValueCache (b : DataBus Topic Ty V) (topic : Topic) (enabled : Bool) :
    b.Extends (b.setLastValueCache topic enabled) :=
  .of_eq rfl rfl rfl

omit [DecidableEq Ty] in
/-- A new signal at the end of the heap. -/
theorem extends_create (h : b.signals topic = none) :
    b.Extends { b with
      signals := Function.update b.signals topic (some b.objects.length)
      objects := b.objects ++ [⟨T, []⟩] } := by
  constructor
  · exact fun _ _ h' => h'
  · intro topic' p h'
    by_cases heq : topic' = topic
    · subst heq
      rw [h] at h'
      cases h'
    · simpa [Function.update_of_ne heq] using h'
  · intro p o ho
    have hp : p < b.objects.length := (List.getElem?_eq_some_iff.mp ho).1
    exact ⟨o, by simpa [List.getElem?_append_left hp] using ho, rfl, fun _ hn => hn⟩

theorem extends_getOrCreateSignal (b : DataBus Topic Ty V) (topic : Topic) (T : Ty) :
    b.Extends (b.getOrCreateSignal topic T).bus := by
  unfold getOrCreateSignal
  cases h : b.checkType topic T with
  | none => exact .refl b
  | some b' =>
    have hb := extends_checkType h
    cases hs : b'.signals topic with
    | some p => simpa [hs] using hb
    | none => simpa [hs] using hb.trans (extends_create hs)

theorem extends_subscribeSignal (b : DataBus Topic Ty V) (topic : Topic) (T : Ty) (qos : QoS) :
    b.Extends (b.subscribeSignal topic T qos).bus := by
  unfold subscribeSignal
  split
  · exact (extends_setLastValueCache b topic true).trans (extends_getOrCreateSignal ..)
  · exact extends_getOrCreateSignal ..

omit [DecidableEq Ty] in
/-- A publish writes nothing but the cache once its type is checked. -/
theorem storeLastValue_frame (b : DataBus Topic Ty V) (topic : Topic) (T : Ty) (data : V)
    (now : ℤ) : ∃ lastValues, (b.storeLastValue topic T data now).1 =
      { b with lastValues := lastValues } := by
  unfold storeLastValue
  split
  · cases h : b.lastValues topic <;> exact ⟨_, rfl⟩
  · exact ⟨b.lastValues, rfl⟩

theorem extends_publishLocked (b : DataBus Topic Ty V) (topic : Topic) (T : Ty) (data : V)
    (now : ℤ) : b.Extends (b.publishLocked topic T data now).bus := by
  unfold publishLocked
  cases h : b.checkType topic T with
  | none => exact .refl b
  | some b' =>
    obtain ⟨lastValues, hframe⟩ := storeLastValue_frame b' topic T data now
    exact (extends_checkType h).trans (.of_eq (by simp [hframe]) (by simp [hframe])
      (by simp [hframe]))

theorem extends_registerSerializer (b : DataBus Topic Ty V) (topic : Topic) (T : Ty)
    (object : ℕ) : b.Extends (b.internalRegisterSerializer topic T object).1 := by
  unfold internalRegisterSerializer
  cases h : b.checkType topic T with
  | none => exact .refl b
  | some b' => exact (extends_checkType h).trans (.of_eq rfl rfl rfl)

theorem extends_registerStringifier (b : DataBus Topic Ty V) (topic : Topic) (T : Ty)
    (object : ℕ) : b.Extends (b.internalRegisterStringifier topic T object).1 := by
  unfold internalRegisterStringifier
  cases h : b.checkType topic T with
  | none => exact .refl b
  | some b' => exact (extends_checkType h).trans (.of_eq rfl rfl rfl)

/-! ## The sections keep the types -/

/-- A table stays well typed when one topic gets a well-typed entry. -/
theorem entries_update {E : Type*} {table : Topic → Option E} {P : Topic → E → Prop} {e : E}
    (h : ∀ topic e, table topic = some e → P topic e) (he : P topic e) (topic' : Topic) (e' : E)
    (h' : Function.update table topic (some e) topic' = some e') : P topic' e' := by
  by_cases heq : topic' = topic
  · subst heq
    rw [Function.update_self, Option.some.injEq] at h'
    rwa [← h']
  · rw [Function.update_of_ne heq] at h'
    exact h topic' e' h'

theorem Typed.checkType (h : b.Typed) (hc : b.checkType topic T = some b') : b'.Typed := by
  refine h.extend (extends_checkType hc) ?_ ?_ ?_ ?_ <;> rw [(checkType_eq_some hc).2]

theorem Typed.getOrCreateSignal (h : b.Typed) (topic : Topic) (T : Ty) :
    (b.getOrCreateSignal topic T).bus.Typed := by
  unfold DataBus.getOrCreateSignal
  cases hc : b.checkType topic T with
  | none => exact h
  | some b' =>
    have hb := h.checkType hc
    cases hs : b'.signals topic with
    | some p => simpa [hs] using hb
    | none =>
      -- the new signal is created for the type that was just recorded
      have he := extends_create (T := T) hs
      have hrecorded := checkType_recorded hc
      simp only [hs]
      refine ⟨entries_update ?_ ?_, hb.serializers, hb.stringifiers, hb.lastValues⟩
      · intro topic' p hp
        obtain ⟨T', ht', hT'⟩ := hb.signals topic' p hp
        exact ⟨T', ht', he.typeOf hT'⟩
      · exact ⟨T, hrecorded, by simp [DataBus.typeOf]⟩

theorem Typed.subscribeSignal (h : b.Typed) (topic : Topic) (T : Ty) (qos : QoS) :
    (b.subscribeSignal topic T qos).bus.Typed := by
  unfold DataBus.subscribeSignal
  split
  · have hq : (b.setLastValueCache topic true).Typed :=
      h.extend (extends_setLastValueCache b topic true) rfl rfl rfl rfl
    exact hq.getOrCreateSignal topic T
  · exact h.getOrCreateSignal topic T

omit [DecidableEq Ty] in
theorem Typed.storeLastValue (h : b.Typed) (ht : b.typeIndices topic = some T) (data : V)
    (now : ℤ) : (b.storeLastValue topic T data now).1.Typed := by
  unfold DataBus.storeLastValue
  split
  · cases hl : b.lastValues topic with
    | some e =>
      have hcreated : e.created = T := by
        have hrecorded := (h.lastValues topic e hl).1
        rw [ht, Option.some.injEq] at hrecorded
        exact hrecorded.symm
      refine ⟨h.signals, h.serializers, h.stringifiers, entries_update h.lastValues ?_⟩
      exact ⟨by rw [ht, hcreated], hcreated.symm⟩
    | none =>
      exact ⟨h.signals, h.serializers, h.stringifiers, entries_update h.lastValues ⟨ht, rfl⟩⟩
  · exact h

theorem Typed.publishLocked (h : b.Typed) (topic : Topic) (T : Ty) (data : V) (now : ℤ) :
    (b.publishLocked topic T data now).bus.Typed := by
  unfold DataBus.publishLocked
  cases hc : b.checkType topic T with
  | none => exact h
  | some b' => exact (h.checkType hc).storeLastValue (checkType_recorded hc) data now

theorem Typed.registerSerializer (h : b.Typed) (topic : Topic) (T : Ty) (object : ℕ) :
    (b.internalRegisterSerializer topic T object).1.Typed := by
  unfold internalRegisterSerializer
  cases hc : b.checkType topic T with
  | none => exact h
  | some b' =>
    have hb := h.checkType hc
    have hrecorded := checkType_recorded hc
    exact ⟨hb.signals, entries_update hb.serializers hrecorded, hb.stringifiers,
      hb.lastValues⟩

theorem Typed.registerStringifier (h : b.Typed) (topic : Topic) (T : Ty) (object : ℕ) :
    (b.internalRegisterStringifier topic T object).1.Typed := by
  unfold internalRegisterStringifier
  cases hc : b.checkType topic T with
  | none => exact h
  | some b' =>
    have hb := h.checkType hc
    have hrecorded := checkType_recorded hc
    exact ⟨hb.signals, hb.serializers, entries_update hb.stringifiers hrecorded,
      hb.lastValues⟩

/-! ## What the sections return, and their casts -/

theorem getOrCreateSignal_result {p : ℕ} (h : (b.getOrCreateSignal topic T).result = some p) :
    (b.getOrCreateSignal topic T).bus.signals topic = some p ∧
      (b.getOrCreateSignal topic T).bus.typeIndices topic = some T := by
  unfold getOrCreateSignal at h ⊢
  cases hc : b.checkType topic T with
  | none => simp [hc] at h
  | some b' =>
    have hrecorded := checkType_recorded hc
    cases hs : b'.signals topic with
    | some q => simpa [hc, hs, hrecorded] using h
    | none => simpa [hc, hs, hrecorded] using h

theorem subscribeSignal_result {p : ℕ} {qos : QoS}
    (h : (b.subscribeSignal topic T qos).result = some p) :
    (b.subscribeSignal topic T qos).bus.signals topic = some p ∧
      (b.subscribeSignal topic T qos).bus.typeIndices topic = some T :=
  getOrCreateSignal_result h

/-- A cast of a stored object to the type it was created with. -/
def SoundCast (c : Cast Ty) : Prop := c.created = some c.target

theorem getOrCreateSignal_casts (h : b.Typed) :
    ∀ c ∈ (b.getOrCreateSignal topic T).casts, SoundCast c := by
  intro c hmem
  unfold getOrCreateSignal at hmem
  cases hc : b.checkType topic T with
  | none => simp [hc] at hmem
  | some b' =>
    cases hs : b'.signals topic with
    | none => simp [hc, hs] at hmem
    | some p =>
      have hp := (h.checkType hc).typeOf hs (checkType_recorded hc)
      simp only [hc, hs, List.mem_singleton] at hmem
      rw [hmem]
      exact hp

theorem subscribeSignal_casts (h : b.Typed) {qos : QoS} :
    ∀ c ∈ (b.subscribeSignal topic T qos).casts, SoundCast c := by
  unfold subscribeSignal
  split
  · have hq : (b.setLastValueCache topic true).Typed :=
      h.extend (extends_setLastValueCache b topic true) rfl rfl rfl rfl
    exact getOrCreateSignal_casts hq
  · exact getOrCreateSignal_casts h

omit [DecidableEq Topic] [DecidableEq Ty] in
theorem subscribeCached_casts (h : b.Typed) (ht : b.typeIndices topic = some T) {qos : QoS}
    {now : ℤ} : ∀ c ∈ (b.subscribeCached topic T qos now).2, SoundCast c := by
  intro c hmem
  unfold subscribeCached at hmem
  split at hmem
  · cases hl : b.lastValues topic with
    | none => simp [hl] at hmem
    | some e =>
      obtain ⟨hcreated, hlive⟩ := h.lastValues topic e hl
      rw [ht] at hcreated
      simp only [hl] at hmem
      split at hmem
      · cases hmem
      · rw [List.mem_singleton.mp hmem]
        simp [SoundCast, hlive, hcreated]
  · cases hmem

omit [DecidableEq Ty] in
theorem storeLastValue_casts (h : b.Typed) (ht : b.typeIndices topic = some T) {data : V}
    {now : ℤ} : ∀ c ∈ (b.storeLastValue topic T data now).2, SoundCast c := by
  intro c hmem
  unfold storeLastValue at hmem
  split at hmem
  · cases hl : b.lastValues topic with
    | none => simp [hl] at hmem
    | some e =>
      obtain ⟨hcreated, hlive⟩ := h.lastValues topic e hl
      rw [ht] at hcreated
      simp only [hl, List.mem_singleton] at hmem
      rw [hmem]
      simp [SoundCast, hlive, hcreated]
  · cases hmem

omit [DecidableEq Topic] [DecidableEq Ty] in
theorem publication_casts (h : b.Typed) (ht : b.typeIndices topic = some T) :
    ∀ c ∈ b.publicationCasts (b.publication topic) T, SoundCast c := by
  intro c hmem
  simp only [publicationCasts, publication, List.mem_append, Option.mem_toList,
    Option.map_eq_some_iff] at hmem
  rcases hmem with (⟨o, ho, rfl⟩ | ⟨p, hp, rfl⟩) | ⟨o, ho, rfl⟩
  · by_cases hm : b.monitored
    · rw [if_pos hm] at ho
      exact (h.stringifiers topic o ho).symm.trans ht
    · simp [hm] at ho
  · exact h.typeOf hp ht
  · exact (h.serializers topic o ho).symm.trans ht

theorem publishLocked_casts (h : b.Typed) {data : V} {now : ℤ} :
    ∀ c ∈ (b.publishLocked topic T data now).casts, SoundCast c := by
  intro c hmem
  unfold publishLocked at hmem
  cases hc : b.checkType topic T with
  | none => simp [hc] at hmem
  | some b' =>
    have hb := h.checkType hc
    have hrecorded := checkType_recorded hc
    simp only [hc, List.mem_append] at hmem
    rcases hmem with hmem | hmem
    · exact storeLastValue_casts hb hrecorded c hmem
    · obtain ⟨lastValues, hframe⟩ := storeLastValue_frame b' topic T data now
      refine publication_casts (hb.storeLastValue hrecorded data now) ?_ c hmem
      rw [hframe]
      exact hrecorded

/-! ## What a call with another type leaves alone -/

/-- The objects of every topic are what they were. -/
structure SameObjects (b b' : DataBus Topic Ty V) : Prop where
  typeIndices : b'.typeIndices = b.typeIndices
  signals : b'.signals = b.signals
  objects : b'.objects = b.objects
  serializers : b'.serializers = b.serializers
  stringifiers : b'.stringifiers = b.stringifiers
  lastValues : b'.lastValues = b.lastValues

theorem mismatch_subscribeSignal (h : b.checkType topic T = none) (qos : QoS) :
    b.SameObjects (b.subscribeSignal topic T qos).bus := by
  obtain ⟨t, ht, hne⟩ := checkType_eq_none.mp h
  -- the flag of the topic may change, but the check does not look at it
  have hq : (b.setLastValueCache topic true).checkType topic T = none :=
    checkType_eq_none.mpr ⟨t, ht, hne⟩
  unfold subscribeSignal getOrCreateSignal
  by_cases hl : qos.lastValueCache
  · simp only [hl, if_true, hq]
    exact ⟨rfl, rfl, rfl, rfl, rfl, rfl⟩
  · simp only [hl, Bool.false_eq_true, if_false, h]
    exact ⟨rfl, rfl, rfl, rfl, rfl, rfl⟩

theorem mismatch_publishLocked (h : b.checkType topic T = none) (data : V) (now : ℤ) :
    (b.publishLocked topic T data now).bus = b := by
  simp [publishLocked, h]

theorem mismatch_registerSerializer (h : b.checkType topic T = none) (object : ℕ) :
    (b.internalRegisterSerializer topic T object).1 = b := by
  simp [internalRegisterSerializer, h]

theorem mismatch_registerStringifier (h : b.checkType topic T = none) (object : ℕ) :
    (b.internalRegisterStringifier topic T object).1 = b := by
  simp [internalRegisterStringifier, h]

end DataBus

/-! ## Every interleaving -/

namespace BusState

variable {Topic : Type u} {Ty : Type v} {V : Type w}
variable {s : BusState Topic Ty V} {b b' : DataBus Topic Ty V}

/-- A subscribe call that got a signal still has it, and is in its list once it
has connected. -/
structure CallInv (b : DataBus Topic Ty V) (i : ℕ) (c : SubscribeCall Topic Ty V) : Prop where
  signal : ∀ p, c.signal = some p →
    b.signals c.topic = some p ∧ b.typeIndices c.topic = some c.type
  connected : c.connected = true → ∃ p, c.signal = some p ∧ i ∈ b.getSnapshot p

theorem mem_getSnapshot {p n : ℕ} :
    n ∈ b.getSnapshot p ↔ ∃ o, b.objects[p]? = some o ∧ n ∈ o.subscribers := by
  unfold DataBus.getSnapshot
  cases h : b.objects[p]? <;> simp

theorem CallInv.extend {i : ℕ} {c : SubscribeCall Topic Ty V} (h : CallInv b i c)
    (he : b.Extends b') : CallInv b' i c := by
  constructor
  · intro p hp
    obtain ⟨hs, ht⟩ := h.signal p hp
    exact ⟨he.signals _ _ hs, he.types _ _ ht⟩
  · intro hc
    obtain ⟨p, hp, hi⟩ := h.connected hc
    obtain ⟨o, ho, hmem⟩ := mem_getSnapshot.mp hi
    obtain ⟨o', ho', -, hsub⟩ := he.objects p o ho
    exact ⟨p, hp, mem_getSnapshot.mpr ⟨o', ho', hsub i hmem⟩⟩

structure Inv (s : BusState Topic Ty V) : Prop where
  typed : s.bus.Typed
  calls : Log.Forall (CallInv s.bus) s.subscribes
  casts : ∀ c ∈ s.casts, DataBus.SoundCast c

theorem Inv.initial (participants : List ℕ) :
    Inv (initial participants : BusState Topic Ty V) :=
  ⟨DataBus.Typed.initial participants, Log.forall_nil, fun _ h => absurd h List.not_mem_nil⟩

theorem signalOf_eq_some {i p : ℕ} :
    s.signalOf i = some p ↔ ∃ c, s.subscribes[i]? = some c ∧ c.signal = some p :=
  Option.bind_eq_some_iff

variable [DecidableEq Topic] [DecidableEq Ty] {l : BusStep Topic Ty V}

/-- No step undoes a type, a signal or a subscriber. -/
theorem extends_update (l : BusStep Topic Ty V) (s : BusState Topic Ty V) :
    s.bus.Extends (update l s).bus := by
  cases l with
  | subscribe topic T qos => exact DataBus.extends_subscribeSignal ..
  | connect i =>
    cases h : s.signalOf i with
    | none => simpa [update, h] using DataBus.Extends.refl s.bus
    | some p => simpa [update, h] using DataBus.extends_connect s.bus p i
  | cached i now => cases h : s.subscribes[i]? <;> simpa [update, h] using DataBus.Extends.refl _
  | publish topic T data localOnly now => exact DataBus.extends_publishLocked ..
  | snapshot j => cases h : s.firedOf j <;> simpa [update, h] using DataBus.Extends.refl _
  | registerSerializer topic T object => exact DataBus.extends_registerSerializer ..
  | registerStringifier topic T object => exact DataBus.extends_registerStringifier ..
  | lastValueCache topic enabled => exact DataBus.extends_setLastValueCache ..
  | monitor connected => exact .of_eq rfl rfl rfl

theorem typed_update (h : Inv s) : (update l s).bus.Typed := by
  have ht := h.typed
  cases l with
  | subscribe topic T qos => exact ht.subscribeSignal topic T qos
  | connect i =>
    cases hs : s.signalOf i with
    | none => simpa [update, hs] using ht
    | some p => simpa [update, hs] using ht.connect p i
  | cached i now => cases hs : s.subscribes[i]? <;> simpa [update, hs] using ht
  | publish topic T data localOnly now => exact ht.publishLocked topic T data now
  | snapshot j => cases hs : s.firedOf j <;> simpa [update, hs] using ht
  | registerSerializer topic T object => exact ht.registerSerializer topic T object
  | registerStringifier topic T object => exact ht.registerStringifier topic T object
  | lastValueCache topic enabled =>
    exact ht.extend (DataBus.extends_setLastValueCache ..) rfl rfl rfl rfl
  | monitor connected => exact ht.extend (.of_eq rfl rfl rfl) rfl rfl rfl rfl

theorem calls_update (h : Inv s) (hg : guard l s) :
    Log.Forall (CallInv (update l s).bus) (update l s).subscribes := by
  have he := extends_update l s
  have hold : Log.Forall (CallInv (update l s).bus) s.subscribes :=
    h.calls.mono fun i c _ hc => hc.extend he
  cases l with
  | subscribe topic T qos =>
    refine hold.concat ⟨fun p hp => ?_, fun hc => by simp at hc⟩
    exact DataBus.subscribeSignal_result hp
  | connect i =>
    cases hs : s.signalOf i with
    | none => simp [guard, hs] at hg
    | some p =>
      obtain ⟨c, hc, hp⟩ := signalOf_eq_some.mp hs
      simp only [update, hs] at hold ⊢
      refine hold.modify fun c' hc' => ?_
      -- the subscriber is now at the end of the list of its signal
      rw [hc, Option.some.injEq] at hc'
      subst hc'
      obtain ⟨o, ho, -⟩ := Option.map_eq_some_iff.mp
        (h.typed.typeOf ((h.calls i c hc).signal p hp).1 ((h.calls i c hc).signal p hp).2)
      refine ⟨(hold i c hc).signal, fun _ => ⟨p, hp, mem_getSnapshot.mpr ?_⟩⟩
      exact ⟨{ o with subscribers := o.subscribers ++ [i] }, by simp [DataBus.connect, ho],
        by simp⟩
  | cached i now =>
    cases hs : s.subscribes[i]? with
    | none => simp [guard, hs] at hg
    | some c =>
      simp only [update, hs] at hold ⊢
      exact hold.modify fun c' hc' => ⟨(hold i c' hc').signal, (hold i c' hc').connected⟩
  | snapshot j => cases hs : s.firedOf j <;> simpa [update, hs] using h.calls
  | publish topic T data localOnly now => exact hold
  | registerSerializer topic T object => exact hold
  | registerStringifier topic T object => exact hold
  | lastValueCache topic enabled => exact hold
  | monitor connected => exact hold

theorem casts_update (h : Inv s) (hg : guard l s) :
    ∀ c ∈ (update l s).casts, DataBus.SoundCast c := by
  have append : ∀ {new : List (Cast Ty)}, (∀ c ∈ new, DataBus.SoundCast c) →
      ∀ c ∈ s.casts ++ new, DataBus.SoundCast c := by
    intro new hnew c hc
    rcases List.mem_append.mp hc with hc | hc
    · exact h.casts c hc
    · exact hnew c hc
  cases l with
  | subscribe topic T qos => exact append (DataBus.subscribeSignal_casts h.typed)
  | connect i => cases hs : s.signalOf i <;> simpa [update, hs] using h.casts
  | cached i now =>
    cases hs : s.subscribes[i]? with
    | none => simp [guard, hs] at hg
    | some c =>
      -- the call is connected, so its topic still has its type
      have hc : c.connected = true := by
        simp only [guard, hs, Option.any_some, Bool.and_eq_true] at hg
        exact hg.1
      obtain ⟨p, hp, -⟩ := (h.calls i c hs).connected hc
      have ht := ((h.calls i c hs).signal p hp).2
      simpa only [update, hs] using append (DataBus.subscribeCached_casts h.typed ht)
  | publish topic T data localOnly now => exact append (DataBus.publishLocked_casts h.typed)
  | snapshot j => cases hs : s.firedOf j <;> simpa [update, hs] using h.casts
  | registerSerializer topic T object => exact h.casts
  | registerStringifier topic T object => exact h.casts
  | lastValueCache topic enabled => exact h.casts
  | monitor connected => exact h.casts

theorem inv_of_reachable {ok : BusStep Topic Ty V → BusState Topic Ty V → Prop}
    (h : (busLts Topic Ty V).ReachableWhen ok s) : Inv s := by
  refine h.induct (P := Inv) ?_ ?_
  · rintro s ⟨participants, rfl⟩
    exact .initial participants
  · intro l s _ hg _ ih
    exact ⟨typed_update ih, calls_update ih hg, casts_update ih hg⟩

end BusState

/-- The topic and the type of the call whose section a step is. -/
def BusStep.operation {Topic : Type u} {Ty : Type v} {V : Type w} :
    BusStep Topic Ty V → Option (Topic × Ty)
  | .subscribe topic T _ => some (topic, T)
  | .publish topic T _ _ _ => some (topic, T)
  | .registerSerializer topic T _ => some (topic, T)
  | .registerStringifier topic T _ => some (topic, T)
  | _ => none

section Main

variable {Topic : Type u} {Ty : Type v} {V : Type w} [DecidableEq Topic] [DecidableEq Ty]
variable {s : BusState Topic Ty V}

/-- A step of a call with another type than the recorded one. -/
theorem mismatch_update {l : BusStep Topic Ty V} {topic : Topic} {T t : Ty}
    (hl : l.operation = some (topic, T)) (ht : s.bus.typeIndices topic = some t) (hne : t ≠ T) :
    s.bus.SameObjects (BusState.update l s).bus := by
  have hc : s.bus.checkType topic T = none := DataBus.checkType_eq_none.mpr ⟨t, ht, hne⟩
  have same : ∀ {b : DataBus Topic Ty V}, b = s.bus → s.bus.SameObjects b := by
    rintro b rfl
    exact ⟨rfl, rfl, rfl, rfl, rfl, rfl⟩
  cases l with
  | subscribe topic' T' qos =>
    cases hl
    exact DataBus.mismatch_subscribeSignal hc qos
  | publish topic' T' data localOnly now =>
    cases hl
    exact same (DataBus.mismatch_publishLocked hc data now)
  | registerSerializer topic' T' object =>
    cases hl
    exact same (DataBus.mismatch_registerSerializer hc object)
  | registerStringifier topic' T' object =>
    cases hl
    exact same (DataBus.mismatch_registerStringifier hc object)
  | connect i => cases hl
  | cached i now => cases hl
  | snapshot j => cases hl
  | lastValueCache topic' enabled => cases hl
  | monitor connected => cases hl

/-- In every reachable state every object of a topic was created for the
recorded type and every cast so far was to the type of its object; the type
stays recorded in every continuation; and a section of a call with another type
leaves all objects alone. -/
theorem one_topic_one_type (h : (busLts Topic Ty V).Reachable s) :
    s.bus.Typed ∧
    (∀ c ∈ s.casts, c.created = some c.target) ∧
    (∀ s', (busLts Topic Ty V).Steps s s' → ∀ topic T,
      s.bus.typeIndices topic = some T → s'.bus.typeIndices topic = some T) ∧
    ∀ l topic T t, l.operation = some (topic, T) → s.bus.typeIndices topic = some t → t ≠ T →
      s.bus.SameObjects (BusState.update l s).bus := by
  have hinv := BusState.inv_of_reachable h
  refine ⟨hinv.typed, hinv.casts, ?_, ?_⟩
  · intro s' hrun topic T ht
    refine h.preserves (P := fun s => s.bus.typeIndices topic = some T) ?_ hrun ht
    intro l s _ _ _ ht
    exact (BusState.extends_update l s).types topic T ht
  · intro l topic T t hl ht hne
    exact mismatch_update hl ht hne

end Main

/-- The type of topic 0 is fixed by a publish; every kind of stored object is
then cast, by calls of the right type and past one of the wrong type. -/
theorem one_topic_one_type_run : ∃ s : BusState ℕ ℕ ℕ, (busLts ℕ ℕ ℕ).Reachable s ∧
    s.casts.length = 5 ∧ ∀ c ∈ s.casts, c.created = some c.target := by
  have hinit : (busLts ℕ ℕ ℕ).init (.initial []) := ⟨[], rfl⟩
  obtain ⟨s, hs, hp⟩ := (busLts ℕ ℕ ℕ).execWhen_reachable Lts.always hinit
    [.lastValueCache 0 true, .publish 0 7 10 false 0, .registerSerializer 0 7 1,
      .registerStringifier 0 7 2, .monitor true, .publish 0 8 11 false 1,
      .subscribe 0 7 ⟨true, none⟩, .connect 0, .publish 0 7 12 true 2, .cached 0 3]
    (fun s => s.casts.length = 5) (by decide +kernel)
  exact ⟨s, hs, of_decide_eq_true hp, (one_topic_one_type hs).2.1⟩

end AsyncSqlite
