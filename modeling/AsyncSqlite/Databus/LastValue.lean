import AsyncSqlite.Databus.Types

/-!
# AsyncSqlite.Databus.LastValue — the last value cache

Two results about a subscription with `lastValueCache`:

* it misses no publish (`no_publish_missed`, every interleaving of any number of
  calls). A publish that enters its critical section behind the first section of
  the subscribe call updates the cache; when it takes its snapshot before
  `Connect`, the second section of the subscribe call is still to come, and finds
  its value or a later one (`DeliveryInv`, `cached_serves`);
* what it gets is the last value, in a sequential run in which every publish of a
  topic with an old value finds the cache on (`cached_is_last`).
-/

namespace AsyncSqlite

universe u v w

namespace DataBus

variable {Topic : Type u} {Ty : Type v} {V : Type w} [DecidableEq Topic] [DecidableEq Ty]
variable {b b' : DataBus Topic Ty V} {topic : Topic} {T : Ty} {data : V} {now : ℤ}

/-! ## What the sections do to the cache -/

/-- Of the cache of a topic: its flag, and its value. -/
structure SameCache (topic : Topic) (b b' : DataBus Topic Ty V) : Prop where
  flag : b'.cacheOn topic = b.cacheOn topic
  value : b'.lastValues topic = b.lastValues topic

omit [DecidableEq Topic] [DecidableEq Ty] in
theorem SameCache.refl (topic : Topic) (b : DataBus Topic Ty V) : SameCache topic b b := ⟨rfl, rfl⟩

theorem checkType_cache (h : b.checkType topic T = some b') (other : Topic) :
    SameCache other b b' := by
  rw [(checkType_eq_some h).2]
  exact ⟨rfl, rfl⟩

omit [DecidableEq Ty] in
@[simp] theorem cacheOn_setLastValueCache (b : DataBus Topic Ty V) (topic other : Topic)
    (enabled : Bool) : (b.setLastValueCache topic enabled).cacheOn other =
      if other = topic then enabled else b.cacheOn other := by
  unfold cacheOn setLastValueCache
  by_cases h : other = topic
  · subst h
    simp
  · simp [h]

theorem getOrCreateSignal_cache (b : DataBus Topic Ty V) (topic : Topic) (T : Ty)
    (other : Topic) : SameCache other b (b.getOrCreateSignal topic T).bus := by
  unfold getOrCreateSignal
  cases h : b.checkType topic T with
  | none => exact .refl other b
  | some b' =>
    have hc := checkType_cache h other
    cases hs : b'.signals topic with
    | some p => simpa [hs] using hc
    | none => exact ⟨by simpa [hs, cacheOn] using hc.flag, by simpa [hs] using hc.value⟩

theorem subscribeSignal_lastValues (b : DataBus Topic Ty V) (topic : Topic) (T : Ty) (qos : QoS)
    (other : Topic) :
    (b.subscribeSignal topic T qos).bus.lastValues other = b.lastValues other := by
  unfold subscribeSignal
  split
  · exact (getOrCreateSignal_cache (b.setLastValueCache topic true) topic T other).value
  · exact (getOrCreateSignal_cache b topic T other).value

/-- The first section turns the cache of its topic on, whatever the type is. -/
theorem subscribeSignal_cacheOn (b : DataBus Topic Ty V) (topic : Topic) (T : Ty) (qos : QoS)
    (other : Topic) : (b.subscribeSignal topic T qos).bus.cacheOn other =
      if other = topic ∧ qos.lastValueCache then true else b.cacheOn other := by
  unfold subscribeSignal
  by_cases hl : qos.lastValueCache
  · have h := (getOrCreateSignal_cache (b.setLastValueCache topic true) topic T other).flag
    simp only [hl, if_true, and_true]
    rw [h, cacheOn_setLastValueCache]
  · have h := (getOrCreateSignal_cache b topic T other).flag
    simpa [hl] using h

theorem registerSerializer_cache (b : DataBus Topic Ty V) (topic : Topic) (T : Ty) (object : ℕ)
    (other : Topic) : SameCache other b (b.internalRegisterSerializer topic T object).1 := by
  unfold internalRegisterSerializer
  cases h : b.checkType topic T with
  | none => exact .refl other b
  | some b' => exact ⟨(checkType_cache h other).flag, (checkType_cache h other).value⟩

theorem registerStringifier_cache (b : DataBus Topic Ty V) (topic : Topic) (T : Ty) (object : ℕ)
    (other : Topic) : SameCache other b (b.internalRegisterStringifier topic T object).1 := by
  unfold internalRegisterStringifier
  cases h : b.checkType topic T with
  | none => exact .refl other b
  | some b' => exact ⟨(checkType_cache h other).flag, (checkType_cache h other).value⟩

omit [DecidableEq Ty] in
/-- The cache of the topic is updated if it is on. -/
theorem storeLastValue_value (b : DataBus Topic Ty V) (topic : Topic) (T : Ty) (data : V)
    (now : ℤ) (other : Topic) :
    ((b.storeLastValue topic T data now).1.lastValues other).map (·.value) =
      if other = topic ∧ b.cacheOn topic then some data
      else (b.lastValues other).map (·.value) := by
  unfold storeLastValue
  by_cases hc : b.cacheOn topic
  · by_cases ho : other = topic
    · subst ho
      cases hl : b.lastValues other <;> simp [hc]
    · cases hl : b.lastValues topic <;> simp [hc, ho]
  · simp [hc]

omit [DecidableEq Ty] in
@[simp] theorem storeLastValue_cacheOn (b : DataBus Topic Ty V) (topic : Topic) (T : Ty)
    (data : V) (now : ℤ) (other : Topic) :
    (b.storeLastValue topic T data now).1.cacheOn other = b.cacheOn other := by
  obtain ⟨lastValues, hframe⟩ := storeLastValue_frame b topic T data now
  rw [hframe]
  rfl

@[simp] theorem publishLocked_cacheOn (b : DataBus Topic Ty V) (topic : Topic) (T : Ty)
    (data : V) (now : ℤ) (other : Topic) :
    (b.publishLocked topic T data now).bus.cacheOn other = b.cacheOn other := by
  unfold publishLocked
  cases h : b.checkType topic T with
  | none => rfl
  | some b' => simpa using (checkType_cache h other).flag

/-- A publish that passes its type check stores its value if the cache is on. -/
theorem publishLocked_value (b : DataBus Topic Ty V) (topic : Topic) (T : Ty) (data : V)
    (now : ℤ) (other : Topic) :
    ((b.publishLocked topic T data now).bus.lastValues other).map (·.value) =
      if other = topic ∧ b.cacheOn topic ∧ (b.publishLocked topic T data now).result.isSome
      then some data else (b.lastValues other).map (·.value) := by
  unfold publishLocked
  cases h : b.checkType topic T with
  | none => simp
  | some b' =>
    have hc := checkType_cache h topic
    have ho := checkType_cache h other
    have hv := storeLastValue_value b' topic T data now other
    simpa [hc.flag, ho.value] using hv

omit [DecidableEq Topic] [DecidableEq Ty] in
/-- What the second section copies: the cached value, unless it is too old. -/
theorem subscribeCached_value {qos : QoS} (hl : qos.lastValueCache = true)
    (hlife : qos.lifespan = none) (b : DataBus Topic Ty V) (topic : Topic) (T : Ty) (now : ℤ) :
    (b.subscribeCached topic T qos now).1 = (b.lastValues topic).map (·.value) := by
  unfold subscribeCached
  cases h : b.lastValues topic <;> simp [hl, hlife]

/-- The publish that is past its section holds the signal of its topic. -/
theorem publishLocked_signal {q : Publication Ty}
    (h : (b.publishLocked topic T data now).result = some q) :
    q.signal = (b.publishLocked topic T data now).bus.signals topic := by
  unfold publishLocked at h ⊢
  cases hc : b.checkType topic T with
  | none => simp [hc] at h
  | some b' =>
    simp only [hc, Option.some.injEq] at h
    rw [← h]
    rfl

end DataBus

/-! ## Every interleaving -/

namespace BusState

variable {Topic : Type u} {Ty : Type v} {V : Type w}
variable {s : BusState Topic Ty V} {b b' : DataBus Topic Ty V} {topic : Topic} {i j : ℕ}
variable {publishes publishes' : List (PublishCall Topic Ty V)} {v : V}
variable {c : SubscribeCall Topic Ty V}

/-- `v` is the value of a publish of the topic, of number `j` or later, that
passed its type check. -/
def ValueFrom (publishes : List (PublishCall Topic Ty V)) (topic : Topic) (j : ℕ) (v : V) : Prop :=
  ∃ k d, j ≤ k ∧ publishes[k]? = some d ∧ d.topic = topic ∧ d.publication.isSome ∧ d.data = v

theorem ValueFrom.concat (h : ValueFrom publishes topic j v) (d : PublishCall Topic Ty V) :
    ValueFrom (publishes ++ [d]) topic j v := by
  obtain ⟨k, d', hjk, hd, hrest⟩ := h
  exact ⟨k, d', hjk, Log.getElem?_concat_of hd, hrest⟩

theorem ValueFrom.snapshot (h : ValueFrom publishes topic j v) (n : ℕ) (l : List ℕ) :
    ValueFrom (publishes.modify n fun d => { d with snapshot := some l }) topic j v := by
  obtain ⟨k, d, hjk, hd, hrest⟩ := h
  by_cases hk : n = k
  · exact ⟨k, { d with snapshot := some l }, hjk, by simp [hk, hd], hrest⟩
  · exact ⟨k, d, hjk, by simp [hk, hd], hrest⟩

/-- The publish `j` reaches the subscriber `i`: its value, or a later one, is in
the cache, and is what the subscriber got from there unless the publish found
it in the signal. -/
structure Served (b : DataBus Topic Ty V) (publishes : List (PublishCall Topic Ty V)) (i : ℕ)
    (c : SubscribeCall Topic Ty V) (j : ℕ) (d : PublishCall Topic Ty V) (q : Publication Ty) :
    Prop where
  signal : q.signal = c.signal
  cache : ∃ v, (b.lastValues c.topic).map (·.value) = some v ∧ ValueFrom publishes c.topic j v
  delivered : c.qos.lifespan = none → ∀ r, c.cached = some r → ∀ l, d.snapshot = some l →
    i ∈ l ∨ ∃ v, r = some v ∧ ValueFrom publishes c.topic j v

/-- What the second section of the subscribe call finds in the cache. -/
theorem Served.cached {d : PublishCall Topic Ty V} {q : Publication Ty}
    (h : Served b publishes i c j d q) (hcache : c.qos.lastValueCache = true)
    (hlife : c.qos.lifespan = none) (now : ℤ) :
    ∃ v, (b.subscribeCached c.topic c.type c.qos now).1 = some v ∧
      ValueFrom publishes c.topic j v := by
  obtain ⟨v, hv, hfrom⟩ := h.cache
  exact ⟨v, (DataBus.subscribeCached_value hcache hlife b c.topic c.type now).trans hv, hfrom⟩

/-- What the cache does for one subscribe call of the topic. -/
structure Delivery (topic : Topic) (b : DataBus Topic Ty V)
    (publishes : List (PublishCall Topic Ty V)) (i : ℕ) (c : SubscribeCall Topic Ty V) : Prop where
  connected : c.cached.isSome → c.connected = true
  cacheOn : c.topic = topic → c.qos.lastValueCache = true → b.cacheOn topic = true
  served : c.topic = topic → c.qos.lastValueCache = true → c.signal.isSome →
    Log.Forall (fun j d => c.start ≤ j → d.topic = topic → ∀ q, d.publication = some q →
      Served b publishes i c j d q) publishes

def DeliveryInv (topic : Topic) (s : BusState Topic Ty V) : Prop :=
  Log.Forall (Delivery topic s.bus s.publishes) s.subscribes

/-- Steps that touch neither the cached value nor the publishes. -/
theorem Delivery.frame (h : Delivery topic b publishes i c)
    (hflag : b.cacheOn topic = true → b'.cacheOn topic = true)
    (hvalue : b'.lastValues topic = b.lastValues topic) : Delivery topic b' publishes i c := by
  refine ⟨h.connected, fun ht hl => hflag (h.cacheOn ht hl), fun ht hl hs => ?_⟩
  refine (h.served ht hl hs).mono fun j d _ hd hstart htopic q hq => ?_
  have hserved := hd hstart htopic q hq
  refine ⟨hserved.signal, ?_, hserved.delivered⟩
  rw [ht, hvalue, ← ht]
  exact hserved.cache

theorem Delivery.same (h : Delivery topic b publishes i c) (hc : DataBus.SameCache topic b b') :
    Delivery topic b' publishes i c :=
  h.frame (fun hon => hc.flag.trans hon) hc.value

variable [DecidableEq Topic] [DecidableEq Ty]

/-- A publish enters the log: of the topic it renews the cache, which is on. -/
theorem Delivery.publish {T : Ty} {data : V} {now : ℤ} {localOnly : Bool} {other : Topic}
    (h : Delivery topic b publishes i c) (hcall : CallInv b i c) :
    Delivery topic (b.publishLocked other T data now).bus
      (publishes ++ [⟨other, T, data, localOnly, (b.publishLocked other T data now).result, none⟩])
      i c := by
  have hcall' := hcall.extend (DataBus.extends_publishLocked b other T data now)
  have hvalue := DataBus.publishLocked_value b other T data now topic
  have hq := @DataBus.publishLocked_signal _ _ _ _ _ b other T data now
  have hflag := DataBus.publishLocked_cacheOn b other T data now topic
  generalize b.publishLocked other T data now = r at *
  refine ⟨h.connected, fun ht hl => hflag.trans (h.cacheOn ht hl), fun ht hl hs => ?_⟩
  have hon := h.cacheOn ht hl
  -- whatever the new call is, the value it leaves counts for every earlier publish
  have hnew : ∀ j, j ≤ publishes.length → other = topic → r.result.isSome → ValueFrom
      (publishes ++ [⟨other, T, data, localOnly, r.result, none⟩]) topic j data := by
    intro j hj ho hsome
    exact ⟨publishes.length, ⟨other, T, data, localOnly, r.result, none⟩, hj, by simp, ho,
      hsome, rfl⟩
  subst ht
  refine Log.Forall.concat ?_ ?_
  · refine (h.served rfl hl hs).mono fun j d hd hold hstart htopic q hpub => ?_
    have hserved := hold hstart htopic q hpub
    have hj : j < publishes.length := (List.getElem?_eq_some_iff.mp hd).1
    refine ⟨hserved.signal, ?_, fun hlife r' hr' l hsnap => ?_⟩
    · by_cases hcond : c.topic = other ∧ b.cacheOn other ∧ r.result.isSome
      · rw [if_pos hcond] at hvalue
        exact ⟨data, hvalue, hnew j (Nat.le_of_lt hj) hcond.1.symm hcond.2.2⟩
      · rw [if_neg hcond] at hvalue
        obtain ⟨v, hv, hfrom⟩ := hserved.cache
        exact ⟨v, hvalue.trans hv, hfrom.concat _⟩
    · rcases hserved.delivered hlife r' hr' l hsnap with hi | ⟨v, hv, hfrom⟩
      · exact Or.inl hi
      · exact Or.inr ⟨v, hv, hfrom.concat _⟩
  · intro _ htopic q hpub
    replace htopic : other = c.topic := htopic
    replace hpub : r.result = some q := hpub
    subst htopic
    obtain ⟨p, hp⟩ := Option.isSome_iff_exists.mp hs
    refine ⟨?_, ?_, fun _ _ _ l hsnap => by cases hsnap⟩
    · rw [hq hpub, hp]
      exact (hcall'.signal p hp).1
    · have hsome : r.result.isSome := by rw [hpub]; rfl
      rw [if_pos ⟨rfl, hon, hsome⟩] at hvalue
      exact ⟨data, hvalue, hnew _ (Nat.le_refl _) rfl hsome⟩

omit [DecidableEq Topic] [DecidableEq Ty] in
/-- A snapshot that comes behind `Connect` contains the subscriber. -/
theorem Delivery.snapshot {n p : ℕ} (h : Delivery topic b publishes i c) (hcall : CallInv b i c)
    (hp : (publishes[n]?.bind (·.publication)).bind (·.signal) = some p) :
    Delivery topic b
      (publishes.modify n fun d => { d with snapshot := some (b.getSnapshot p) }) i c := by
  refine ⟨h.connected, h.cacheOn, fun ht hl hs => ?_⟩
  have hmono : Log.Forall (fun j d => c.start ≤ j → d.topic = topic →
      ∀ q, d.publication = some q → Served b
        (publishes.modify n fun d => { d with snapshot := some (b.getSnapshot p) }) i c j d q)
      publishes := by
    refine (h.served ht hl hs).mono fun j d _ hold hstart htopic q hpub => ?_
    have hserved := hold hstart htopic q hpub
    obtain ⟨v, hv, hfrom⟩ := hserved.cache
    refine ⟨hserved.signal, ⟨v, hv, hfrom.snapshot n _⟩, fun hlife r hr l hsnap => ?_⟩
    rcases hserved.delivered hlife r hr l hsnap with hi | ⟨v, hv, hfrom⟩
    · exact Or.inl hi
    · exact Or.inr ⟨v, hv, hfrom.snapshot n _⟩
  refine hmono.modify fun d hd hstart htopic q hpub => ?_
  have hserved := hmono n d hd hstart htopic q hpub
  refine ⟨hserved.signal, hserved.cache, fun _ r hr l hsnap => Or.inl ?_⟩
  -- the call has read the cache, so it is connected, to the signal of this publish
  obtain ⟨p', hp', hmem⟩ := hcall.connected (h.connected (by rw [hr]; rfl))
  have hpub : d.publication = some q := hpub
  have hpp : p' = p := by
    rw [hd, Option.bind_some, hpub, Option.bind_some, hserved.signal, hp'] at hp
    exact Option.some.inj hp
  have hsnap : b.getSnapshot p = l := Option.some.inj hsnap
  rw [← hsnap, ← hpp]
  exact hmem

/-- The cache of the topic is not switched off. -/
def KeepsCache (topic : Topic) (l : BusStep Topic Ty V) (_ : BusState Topic Ty V) : Prop :=
  l ≠ .lastValueCache topic false

instance (topic : Topic) (l : BusStep Topic Ty V) (s : BusState Topic Ty V) :
    Decidable (KeepsCache topic l s) :=
  match l with
  | .lastValueCache topic' enabled =>
    decidable_of_iff (¬ (topic' = topic ∧ enabled = false)) (by simp [KeepsCache])
  | .subscribe _ _ _ | .connect _ | .cached _ _ | .publish _ _ _ _ _ | .snapshot _
  | .registerSerializer _ _ _ | .registerStringifier _ _ _ | .monitor _ =>
    isTrue (by simp [KeepsCache])

theorem deliveryInv_update {l : BusStep Topic Ty V} (hinv : Inv s) (hg : guard l s)
    (hok : KeepsCache topic l s) (h : DeliveryInv topic s) : DeliveryInv topic (update l s) := by
  cases l with
  | subscribe topic' T qos =>
    have hflag := DataBus.subscribeSignal_cacheOn s.bus topic' T qos topic
    have hvalue := DataBus.subscribeSignal_lastValues s.bus topic' T qos topic
    refine Log.Forall.concat ?_ ?_
    · refine Log.Forall.mono h fun i c _ hc => hc.frame (fun hon => hflag.trans ?_) hvalue
      split
      · rfl
      · exact hon
    · refine ⟨fun hc => by simp at hc, fun ht hl => ?_, fun _ _ _ j d hd hstart => ?_⟩
      · exact hflag.trans (if_pos ⟨ht.symm, hl⟩)
      · -- no publish so far came behind this section
        have hj : j < s.publishes.length := (List.getElem?_eq_some_iff.mp hd).1
        exact absurd hj (Nat.not_lt.mpr hstart)
  | connect i =>
    cases hs : s.signalOf i with
    | none => simp [guard, hs] at hg
    | some p =>
      simp only [update, hs]
      refine Log.Forall.modify (Log.Forall.mono h fun i c _ hc => hc.same ⟨rfl, rfl⟩) ?_
      intro c hc
      have hsame : DataBus.SameCache topic s.bus (s.bus.connect p i) := ⟨rfl, rfl⟩
      have hcall := (h i c hc).same hsame
      refine ⟨fun _ => rfl, hcall.cacheOn, fun ht hl hsig => ?_⟩
      refine (hcall.served ht hl hsig).mono fun j d _ hd hstart htopic q hq => ?_
      have hserved := hd hstart htopic q hq
      exact ⟨hserved.signal, hserved.cache, hserved.delivered⟩
  | cached i now =>
    cases hs : s.subscribes[i]? with
    | none => simp [guard, hs] at hg
    | some c₀ =>
      simp only [update, hs]
      refine Log.Forall.modify h fun c hc => ?_
      rw [hs, Option.some.injEq] at hc
      subst hc
      have hconn : c₀.connected = true := by
        simp only [guard, hs, Option.any_some, Bool.and_eq_true] at hg
        exact hg.1
      refine ⟨fun _ => hconn, (h i c₀ hs).cacheOn, fun ht hl hsig => ?_⟩
      refine ((h i c₀ hs).served ht hl hsig).mono fun j d _ hd hstart htopic q hq => ?_
      have hserved := hd hstart htopic q hq
      refine ⟨hserved.signal, hserved.cache, fun hlife r hr l _ => Or.inr ?_⟩
      -- the cache holds the value of the publish, or a later one
      obtain ⟨v, hv, hfrom⟩ := hserved.cached hl hlife now
      exact ⟨v, (Option.some.inj hr).symm.trans hv, hfrom⟩
  | publish topic' T data localOnly now =>
    exact Log.Forall.mono h fun i c hi hc => hc.publish (hinv.calls i c hi)
  | snapshot j =>
    cases hs : s.firedOf j with
    | none => simp [guard, hs] at hg
    | some p =>
      simp only [update, hs]
      exact Log.Forall.mono h fun i c hi hc => hc.snapshot (hinv.calls i c hi) hs
  | registerSerializer topic' T object =>
    exact Log.Forall.mono h fun i c _ hc => hc.same (DataBus.registerSerializer_cache ..)
  | registerStringifier topic' T object =>
    exact Log.Forall.mono h fun i c _ hc => hc.same (DataBus.registerStringifier_cache ..)
  | lastValueCache topic' enabled =>
    refine Log.Forall.mono h fun i c _ hc => hc.frame (fun hon => ?_) rfl
    have hflag := DataBus.cacheOn_setLastValueCache s.bus topic' topic enabled
    refine hflag.trans ?_
    split
    · rename_i heq
      cases enabled with
      | false => exact absurd (by rw [heq]) hok
      | true => rfl
    · exact hon
  | monitor connected => exact Log.Forall.mono h fun i c _ hc => hc.same ⟨rfl, rfl⟩

theorem deliveryInv_of_reachable (h : (busLts Topic Ty V).ReachableWhen (KeepsCache topic) s) :
    DeliveryInv topic s := by
  refine h.induct (P := DeliveryInv topic) ?_ ?_
  · rintro s ⟨participants, rfl⟩
    exact Log.forall_nil
  · intro l s hr hg hok ih
    exact deliveryInv_update (inv_of_reachable hr) hg hok ih

/-- A publish whose section comes behind the first section of a subscribe call
with the cache fires the signal of the call, and what it fires contains the
subscriber unless the call got the value, or a later one, from the cache. -/
theorem no_publish_missed (h : (busLts Topic Ty V).ReachableWhen (KeepsCache topic) s)
    {i j p : ℕ} {c : SubscribeCall Topic Ty V} {d : PublishCall Topic Ty V} {q : Publication Ty}
    (hc : s.subscribes[i]? = some c) (htopic : c.topic = topic) (hsig : c.signal = some p)
    (hcache : c.qos.lastValueCache = true) (hlife : c.qos.lifespan = none)
    (hd : s.publishes[j]? = some d) (hd' : d.topic = topic) (hq : d.publication = some q)
    (hafter : c.start ≤ j) :
    q.signal = some p ∧
      ∀ r, c.cached = some r → ∀ l, d.snapshot = some l →
        i ∈ l ∨ ∃ k d', j ≤ k ∧ s.publishes[k]? = some d' ∧ d'.topic = topic ∧
          d'.publication.isSome ∧ r = some d'.data := by
  have hinv := deliveryInv_of_reachable h i c hc
  have hserved := hinv.served htopic hcache (by rw [hsig]; rfl) j d hd hafter hd' q hq
  refine ⟨hserved.signal.trans hsig, fun r hr l hl => ?_⟩
  rcases hserved.delivered hlife r hr l hl with hi | ⟨v, hv, k, d', hk, hd', ht, hsome, hdata⟩
  · exact Or.inl hi
  · exact Or.inr ⟨k, d', hk, hd', ht.trans htopic, hsome, by rw [hv, hdata]⟩

/-- A subscribe call that has finished. -/
def finishedCall : SubscribeCall ℕ ℕ ℕ := ⟨0, 7, ⟨true, none⟩, some 0, 1, true, some (some 12)⟩

/-- A publish behind its first section whose snapshot came before `Connect`. -/
def earlyCall : PublishCall ℕ ℕ ℕ :=
  ⟨0, 7, 11, false, some ⟨false, none, some 0, none, []⟩, some []⟩

/-- The publish of 11 does not find the subscriber, who gets 12 from the cache. -/
theorem no_publish_missed_run : ∃ s : BusState ℕ ℕ ℕ,
    (busLts ℕ ℕ ℕ).ReachableWhen (KeepsCache 0) s ∧ s.subscribes[0]? = some finishedCall ∧
      s.publishes[1]? = some earlyCall ∧
      ∃ k d, 1 ≤ k ∧ s.publishes[k]? = some d ∧ d.topic = 0 ∧ d.publication.isSome ∧
        finishedCall.cached = some (some d.data) := by
  have hinit : (busLts ℕ ℕ ℕ).init (.initial []) := ⟨[], rfl⟩
  obtain ⟨s, hs, hp⟩ := (busLts ℕ ℕ ℕ).execWhen_reachable (KeepsCache 0) hinit
    [.publish 0 7 10 false 0, .subscribe 0 7 ⟨true, none⟩, .publish 0 7 11 false 1, .snapshot 1,
      .connect 0, .publish 0 7 12 true 2, .cached 0 3]
    (fun s => s.subscribes[0]? = some finishedCall ∧ s.publishes[1]? = some earlyCall)
    (by decide +kernel)
  obtain ⟨hc, hd⟩ := of_decide_eq_true hp
  have hmissed := (no_publish_missed hs hc rfl rfl rfl rfl hd rfl rfl (Nat.le_refl 1)).2
    (some 12) rfl [] rfl
  obtain ⟨k, d', hk, hd', ht, hsome, hdata⟩ := hmissed.resolve_left (List.not_mem_nil)
  exact ⟨s, hs, hc, hd, k, d', hk, hd', ht, hsome, congrArg some hdata⟩

/-- The second section of a call that is connected runs, and records what it found. -/
theorem cached_enabled (hc : s.subscribes[i]? = some c) (hconn : c.connected = true)
    (hopen : c.cached = none) (now : ℤ) :
    guard (.cached i now) s ∧ (update (.cached i now) s).subscribes[i]? =
      some { c with cached := some (s.bus.subscribeCached c.topic c.type c.qos now).1 } := by
  constructor
  · simp [guard, hc, hconn, hopen]
  · simp [update, hc]

/-- So a call that has still to run it gets the value of every publish behind its
first section, or a later one, whether the publish finds it in the signal or not. -/
theorem cached_serves (h : (busLts Topic Ty V).ReachableWhen (KeepsCache topic) s)
    {d : PublishCall Topic Ty V} (hc : s.subscribes[i]? = some c) (htopic : c.topic = topic)
    (hsig : c.signal.isSome) (hcache : c.qos.lastValueCache = true)
    (hlife : c.qos.lifespan = none) (hconn : c.connected = true) (hopen : c.cached = none)
    (hd : s.publishes[j]? = some d) (hd' : d.topic = topic) (hpub : d.publication.isSome)
    (hafter : c.start ≤ j) (now : ℤ) :
    guard (.cached i now) s ∧ ∃ v, ValueFrom s.publishes topic j v ∧
      (update (.cached i now) s).subscribes[i]? = some { c with cached := some (some v) } := by
  obtain ⟨q, hq⟩ := Option.isSome_iff_exists.mp hpub
  have hinv := deliveryInv_of_reachable h i c hc
  have hserved := hinv.served htopic hcache hsig j d hd hafter hd' q hq
  obtain ⟨v, hv, hfrom⟩ := hserved.cached hcache hlife now
  obtain ⟨hg, hnext⟩ := cached_enabled hc hconn hopen now
  refine ⟨hg, v, htopic ▸ hfrom, ?_⟩
  rw [hnext, hv]

end BusState

/-! ## Sequential runs -/

namespace DataBus

variable {Topic : Type u} {Ty : Type v} {V : Type w} [DecidableEq Topic] [DecidableEq Ty]

/-- A whole call of `Publish` or `PublishLocal`, of which only the section
writes to the tables; `none` is a failed assertion. -/
def publish (b : DataBus Topic Ty V) (topic : Topic) (T : Ty) (data : V) (now : ℤ) :
    Option (DataBus Topic Ty V) :=
  let r := b.publishLocked topic T data now
  if r.result.isSome then some r.bus else none

/-- A whole call of `Subscribe`, and what it delivers from the cache. -/
def subscribe (b : DataBus Topic Ty V) (topic : Topic) (T : Ty) (qos : QoS) (sub : ℕ)
    (now : ℤ) : Option (DataBus Topic Ty V × Option V) :=
  let r := b.subscribeSignal topic T qos
  match r.result with
  | none => none
  | some p =>
    let b' := r.bus.connect p sub
    some (b', (b'.subscribeCached topic T qos now).1)

end DataBus

/-- What a subscription got from the cache, and the value of the most recent
publish of the topic. -/
structure CachedDelivery (Topic : Type u) (V : Type w) where
  topic : Topic
  value : V
  latest : Option V
deriving DecidableEq

structure SequentialBus (Topic : Type u) (Ty : Type v) (V : Type w) where
  bus : DataBus Topic Ty V
  aborted : Bool
  /-- history: the value of the most recent publish -/
  latest : Topic → Option V
  /-- history: that publish found the cache on -/
  latestCached : Topic → Bool
  /-- history -/
  delivered : List (CachedDelivery Topic V)

inductive SequentialCall (Topic : Type u) (Ty : Type v) (V : Type w)
  | publish (topic : Topic) (T : Ty) (data : V) (localOnly : Bool) (now : ℤ)
  | subscribe (topic : Topic) (T : Ty) (qos : QoS) (sub : ℕ) (now : ℤ)
  | lastValueCache (topic : Topic) (enabled : Bool)

namespace SequentialBus

variable {Topic : Type u} {Ty : Type v} {V : Type w} [DecidableEq Topic] [DecidableEq Ty]

def update : SequentialCall Topic Ty V → SequentialBus Topic Ty V → SequentialBus Topic Ty V
  | .publish topic T data _ now, s =>
    match s.bus.publish topic T data now with
    | none => { s with aborted := true }
    | some b =>
      { s with
        bus := b
        latest := Function.update s.latest topic (some data)
        latestCached := Function.update s.latestCached topic (s.bus.cacheOn topic) }
  | .subscribe topic T qos sub now, s =>
    match s.bus.subscribe topic T qos sub now with
    | none => { s with aborted := true }
    | some (b, cached) =>
      { s with
        bus := b
        delivered := s.delivered ++
          (cached.map fun v => ⟨topic, v, s.latest topic⟩).toList }
  | .lastValueCache topic enabled, s =>
    { s with bus := s.bus.internalLastValueCache topic enabled }

end SequentialBus

/-- Calls on one thread; a failed assertion ends the run. -/
def sequentialLts (Topic : Type u) (Ty : Type v) (V : Type w) [DecidableEq Topic]
    [DecidableEq Ty] : Lts (SequentialBus Topic Ty V) (SequentialCall Topic Ty V) where
  init s := s = ⟨DataBus.initial, false, fun _ => none, fun _ => false, []⟩
  guard _ s := s.aborted = false
  update := SequentialBus.update

namespace SequentialBus

variable {Topic : Type u} {Ty : Type v} {V : Type w} [DecidableEq Topic] [DecidableEq Ty]
variable {s : SequentialBus Topic Ty V} {l : SequentialCall Topic Ty V}

instance : Decidable ((sequentialLts Topic Ty V).guard l s) :=
  inferInstanceAs (Decidable (_ = _))

/-- A subscription that finds a cached value finds that of a topic whose most
recent publish was cached. -/
def CachedLatest : SequentialCall Topic Ty V → SequentialBus Topic Ty V → Prop
  | .subscribe topic _ qos _ _, s =>
    qos.lastValueCache = true → (s.bus.lastValues topic).isSome → s.latestCached topic = true
  | _, _ => True

instance : Decidable (CachedLatest l s) := by
  cases l <;> unfold CachedLatest <;> infer_instance

/-- When the most recent publish was cached, the cache holds its value. -/
def CacheInv (s : SequentialBus Topic Ty V) : Prop :=
  ∀ topic, s.latestCached topic = true →
    (s.bus.lastValues topic).map (·.value) = s.latest topic

theorem subscribe_eq_some {b b' : DataBus Topic Ty V} {topic : Topic} {T : Ty} {qos : QoS}
    {sub : ℕ} {now : ℤ} {cached : Option V}
    (h : b.subscribe topic T qos sub now = some (b', cached)) :
    b'.lastValues = b.lastValues ∧ ∀ v, cached = some v → qos.lastValueCache = true ∧
      (b.lastValues topic).map (·.value) = some v := by
  unfold DataBus.subscribe at h
  have hvalues := DataBus.subscribeSignal_lastValues b topic T qos
  generalize b.subscribeSignal topic T qos = r at h hvalues
  cases hr : r.result with
  | none => simp [hr] at h
  | some p =>
    simp only [hr, Option.some.injEq, Prod.mk.injEq] at h
    obtain ⟨rfl, rfl⟩ := h
    refine ⟨funext hvalues, fun v hv => ?_⟩
    have hval : (r.bus.connect p sub).lastValues topic = b.lastValues topic := hvalues topic
    unfold DataBus.subscribeCached at hv
    split at hv
    · rename_i hl
      refine ⟨hl, ?_⟩
      rw [hval] at hv
      cases he : b.lastValues topic with
      | none => simp [he] at hv
      | some e =>
        simp only [he] at hv
        split at hv
        · cases hv
        · exact hv
    · cases hv

theorem cacheInv_update (h : CacheInv s) : CacheInv (update l s) := by
  intro topic hcached
  cases l with
  | publish topic' T data localOnly now =>
    have hvalue := DataBus.publishLocked_value s.bus topic' T data now topic
    unfold update at hcached ⊢
    cases hp : s.bus.publish topic' T data now with
    | none =>
      simp only [hp] at hcached ⊢
      exact h topic hcached
    | some b =>
      unfold DataBus.publish at hp
      simp only [Option.ite_none_right_eq_some, Option.some.injEq] at hp
      obtain ⟨hsome, rfl⟩ := hp
      simp only [DataBus.publish, hsome, if_true] at hcached ⊢
      -- what the cache then holds of the topic is what was just published
      by_cases heq : topic = topic'
      · subst heq
        simp only [Function.update_self] at hcached ⊢
        rw [hvalue, if_pos ⟨rfl, hcached, hsome⟩]
      · simp only [Function.update_of_ne heq] at hcached ⊢
        rw [hvalue, if_neg (fun hc => heq hc.1)]
        exact h topic hcached
  | subscribe topic' T qos sub now =>
    unfold update at hcached ⊢
    cases hp : s.bus.subscribe topic' T qos sub now with
    | none =>
      simp only [hp] at hcached ⊢
      exact h topic hcached
    | some r =>
      obtain ⟨hvalues, -⟩ := subscribe_eq_some hp
      simp only [hp] at hcached ⊢
      rw [hvalues]
      exact h topic hcached
  | lastValueCache topic' enabled => exact h topic hcached

/-- In every run whose subscriptions meet the condition, what each of them got
from the cache is the value of the most recent publish. -/
theorem cached_is_last (h : (sequentialLts Topic Ty V).ReachableWhen CachedLatest s) :
    ∀ d ∈ s.delivered, d.latest = some d.value := by
  suffices hboth : CacheInv s ∧ ∀ d ∈ s.delivered, d.latest = some d.value from hboth.2
  refine h.induct (P := fun s => CacheInv s ∧ ∀ d ∈ s.delivered, d.latest = some d.value) ?_ ?_
  · rintro s rfl
    refine ⟨?_, fun _ hd => absurd hd List.not_mem_nil⟩
    intro topic hc
    cases hc
  · rintro l s - - hok ⟨hinv, hdel⟩
    refine ⟨cacheInv_update hinv, ?_⟩
    intro d hd
    cases l with
    | publish topic T data localOnly now =>
      refine hdel d ?_
      change d ∈ (update _ s).delivered at hd
      unfold update at hd
      cases hp : s.bus.publish topic T data now <;> simpa [hp] using hd
    | subscribe topic T qos sub now =>
      change d ∈ (update _ s).delivered at hd
      unfold update at hd
      cases hp : s.bus.subscribe topic T qos sub now with
      | none =>
        simp only [hp] at hd
        exact hdel d hd
      | some r =>
        simp only [hp, List.mem_append, Option.mem_toList, Option.map_eq_some_iff] at hd
        rcases hd with hd | ⟨v, hv, rfl⟩
        · exact hdel d hd
        · obtain ⟨hl, hvalue⟩ := (subscribe_eq_some hp).2 v hv
          -- the cache held a value, so the condition was checked
          have hsome : (s.bus.lastValues topic).isSome := by
            rw [← Option.isSome_map (f := (·.value)), hvalue]
            rfl
          exact (hinv topic (hok hl hsome)).symm.trans hvalue
    | lastValueCache topic enabled => exact hdel d hd

/-- The cache is switched off between two publishes and on again before the
second subscription. -/
theorem cached_is_last_run : ∃ s : SequentialBus ℕ ℕ ℕ,
    (sequentialLts ℕ ℕ ℕ).ReachableWhen CachedLatest s ∧ s.delivered = [⟨0, 3, some 3⟩] ∧
      ∀ d ∈ s.delivered, d.latest = some d.value := by
  obtain ⟨s, hs, hp⟩ := (sequentialLts ℕ ℕ ℕ).execWhen_reachable CachedLatest rfl
    [.lastValueCache 0 true, .publish 0 7 1 false 0, .lastValueCache 0 false,
      .publish 0 7 2 false 1, .lastValueCache 0 true, .publish 0 7 3 true 2,
      .subscribe 0 7 ⟨true, none⟩ 0 3]
    (fun s => s.delivered = [⟨0, 3, some 3⟩]) (by decide +kernel)
  exact ⟨s, hs, of_decide_eq_true hp, cached_is_last hs⟩

/-- Without the third publish the subscription gets the value of the first. -/
theorem not_cached_is_last : ∃ s : SequentialBus ℕ ℕ ℕ, (sequentialLts ℕ ℕ ℕ).Reachable s ∧
    ∃ d ∈ s.delivered, d.value = 1 ∧ d.latest = some 2 := by
  obtain ⟨s, hs, hp⟩ := (sequentialLts ℕ ℕ ℕ).execWhen_reachable Lts.always rfl
    [.lastValueCache 0 true, .publish 0 7 1 false 0, .lastValueCache 0 false,
      .publish 0 7 2 false 1, .subscribe 0 7 ⟨true, none⟩ 0 2]
    (fun s => s.delivered = [⟨0, 1, some 2⟩]) (by decide +kernel)
  exact ⟨s, hs, ⟨0, 1, some 2⟩, by rw [of_decide_eq_true hp]; simp, rfl, rfl⟩

end SequentialBus

end AsyncSqlite
