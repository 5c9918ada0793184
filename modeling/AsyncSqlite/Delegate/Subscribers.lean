import AsyncSqlite.Delegate.Broadcast
import AsyncSqlite.Delegate.Equality

/-!
# AsyncSqlite.Delegate.Subscribers — whose subscription `-=` takes away

The containers of `Delegate.Multicast` with the delegates of `Delegate.Equality`
in them, and with objects that cease to exist while delegates refer to them.

* **Ledger**: `ledger` is what the subscribers expect: `-=` takes away one
  subscription of the very delegate that it is given. The code takes away the
  first one whose `Equal` accepts that delegate.
* **Comparison**: the two are compared by what is heard. A subscription that
  calls nothing (no target, no thread, the object gone) does not count.
-/

namespace AsyncSqlite

universe u

/-! ## Lists -/

section Erase

variable {α : Type u} [DecidableEq α] {P H : α → Bool} {a : α} {l : List α}

/-- Where `P` accepts nothing else that counts beside `a`, erasing by `P` and
erasing `a` leave the same of what counts. -/
theorem filter_eraseP_eq (hP : P a = true)
    (hself : ∀ x ∈ l, P x = true → H x = true ∨ H a = true → x = a) :
    (l.eraseP P).filter H = (l.filter H).erase a := by
  induction l with
  | nil => rfl
  | cons x l ih =>
    have hx := hself x List.mem_cons_self
    have hrest : ∀ y ∈ l, P y = true → H y = true ∨ H a = true → y = a :=
      fun y hy => hself y (List.mem_cons_of_mem x hy)
    by_cases hPx : P x = true
    · rw [List.eraseP_cons_of_pos hPx]
      by_cases hHx : H x = true
      · have heq := hx hPx (Or.inl hHx)
        subst heq
        rw [List.filter_cons_of_pos hHx, List.erase_cons_head]
      · -- `a` does not count either
        have hHa : ¬ H a = true := by
          intro hHa
          rw [hx hPx (Or.inr hHa)] at hHx
          exact hHx hHa
        have hnotin : a ∉ l.filter H := fun hmem => hHa (List.mem_filter.mp hmem).2
        rw [List.filter_cons_of_neg hHx, List.erase_of_not_mem hnotin]
    · have hne : x ≠ a := by
        rintro rfl
        exact hPx hP
      rw [List.eraseP_cons_of_neg hPx]
      by_cases hHx : H x = true
      · rw [List.filter_cons_of_pos hHx, List.filter_cons_of_pos hHx,
          List.erase_cons_tail (by simpa using hne), ih hrest]
      · rw [List.filter_cons_of_neg hHx, List.filter_cons_of_neg hHx, ih hrest]

end Erase

/-! ## The system -/

structure Subscribers where
  /-- the objects that exist -/
  alive : ℕ → Bool
  containers : ℕ → MulticastDelegate BoundDelegate
  ledger : ℕ → List BoundDelegate

inductive SubscriberLabel where
  /-- the last `shared_ptr` to the object is released -/
  | expire (object : ℕ)
  | multicast (l : MulticastLabel BoundDelegate)

namespace MulticastLabel

variable {D : Type u}

/-- What a step does to the lists of the containers; `take` is what `-=` does. -/
def follow (take : D → List D → List D) : MulticastLabel D → (ℕ → List D) → ℕ → List D
  | .insert i d, ls => Function.update ls i (ls i ++ [d])
  | .remove i d, ls => Function.update ls i (take d (ls i))
  | .clear i, ls => Function.update ls i []
  | .copyAssign i j, ls => Function.update ls i (ls j)
  | .moveAssign i j, ls =>
    if i = j then ls else Function.update (Function.update ls i (ls j)) j []
  | _, ls => ls

/-- The delegates that `+=` and `-=` are called with are of the set. -/
def Uses (F : Set D) : MulticastLabel D → Prop
  | .insert _ d | .remove _ d => d ∈ F
  | _ => True

/-- Where `take` and `take'` agree up to `f`, so do the lists. -/
theorem follow_congr {β : Type u} {take take' : D → List D → List D} {f : List D → β}
    {l : MulticastLabel D} {ls ls' : ℕ → List D} (hls : ∀ i, f (ls i) = f (ls' i))
    (hinsert : ∀ i d, l = .insert i d → f (ls i ++ [d]) = f (ls' i ++ [d]))
    (htake : ∀ i d, l = .remove i d → f (take d (ls i)) = f (take' d (ls' i))) (i : ℕ) :
    f (follow take l ls i) = f (follow take' l ls' i) := by
  have hset : ∀ {k x x'}, f x = f x' →
      f (Function.update ls k x i) = f (Function.update ls' k x' i) := by
    intro k x x' hx
    by_cases hik : i = k
    · subst hik
      rw [Function.update_self, Function.update_self]
      exact hx
    · rw [Function.update_of_ne hik, Function.update_of_ne hik]
      exact hls i
  cases l with
  | insert k d => exact hset (hinsert k d rfl)
  | remove k d => exact hset (htake k d rfl)
  | clear k => exact hset rfl
  | copyAssign k j => exact hset (hls j)
  | moveAssign k j =>
    simp only [follow]
    split
    · exact hls i
    · by_cases hij : i = j
      · subst hij
        rw [Function.update_self, Function.update_self]
      · rw [Function.update_of_ne hij, Function.update_of_ne hij]
        exact hset (hls j)
  | _ => exact hls i

end MulticastLabel

namespace Subscribers

def initial : Subscribers := ⟨BoundDelegate.allAlive, fun _ => .initial, fun _ => []⟩

/-- The subscriptions of a list that call something. -/
def heardOf (s : Subscribers) (l : List BoundDelegate) : List BoundDelegate :=
  l.filter fun d => d.heard s.alive

def guard : SubscriberLabel → Subscribers → Prop
  | .expire _, _ => True
  | .multicast l, s => MulticastDelegate.guard l s.containers

def update : SubscriberLabel → Subscribers → Subscribers
  | .expire object, s => { s with alive := Function.update s.alive object false }
  | .multicast l, s =>
    { s with
      containers := MulticastDelegate.update (BoundDelegate.equal s.alive) l s.containers
      ledger := l.follow (fun d ds => ds.erase d) s.ledger }

instance (l : SubscriberLabel) (s : Subscribers) : Decidable (guard l s) :=
  match l with
  | .expire _ => isTrue trivial
  | .multicast l => inferInstanceAs (Decidable (MulticastDelegate.guard l s.containers))

end Subscribers

def subscribersLts : Lts Subscribers SubscriberLabel where
  init := fun s => s = Subscribers.initial
  guard := Subscribers.guard
  update := Subscribers.update

instance (l : SubscriberLabel) (s : Subscribers) : Decidable (subscribersLts.guard l s) :=
  inferInstanceAs (Decidable (Subscribers.guard l s))

/-- The subscribers use delegates of `F` only. -/
def SubscriberLabel.Uses (F : Set BoundDelegate) : SubscriberLabel → Subscribers → Prop
  | .expire _, _ => True
  | .multicast l, _ => l.Uses F

instance {D : Type u} (F : Set D) [DecidablePred (· ∈ F)] (l : MulticastLabel D) :
    Decidable (l.Uses F) :=
  match l with
  | .insert _ d | .remove _ d => inferInstanceAs (Decidable (d ∈ F))
  | .clear _ | .copyAssign _ _ | .moveAssign _ _ | .broadcast _ | .visit _ | .callbackReturn _
  | .callbackThrow _ | .finish _ => isTrue trivial

instance (F : Set BoundDelegate) [DecidablePred (· ∈ F)] (l : SubscriberLabel) (s : Subscribers) :
    Decidable (l.Uses F s) :=
  match l with
  | .expire _ => isTrue trivial
  | .multicast l => inferInstanceAs (Decidable (l.Uses F))

/-- No delegate of the set is taken for another one, as long as one of them calls
something. -/
def Unconfused (F : Set BoundDelegate) : Prop :=
  ∀ a ∈ F, ∀ b ∈ F, a.heard BoundDelegate.allAlive = true ∨ b.heard BoundDelegate.allAlive = true →
    a.equal BoundDelegate.allAlive b = true → a = b

/-! ## The delegates of a container -/

namespace MulticastDelegate

variable {D : Type u} {equal : D → D → Bool}

/-- The delegates in `m_delegates`. -/
def registered (m : MulticastDelegate D) : List D := m.delegates.reduceOption.map (·.delegate)

theorem MulticastInv.registered_eq [DecidableEq D] {m : MulticastDelegate D} (h : MulticastInv m) :
    m.registered = m.registry.live.map (·.delegate) := by
  rw [registered, h.entries]

theorem delegates_foldl_insert (ds : List D) (r : Registry D) :
    (ds.foldl Registry.insert r).live.map (·.delegate) = r.live.map (·.delegate) ++ ds := by
  induction ds generalizing r with
  | nil => simp
  | cons d ds ih =>
    rw [List.foldl_cons, ih]
    simp [Registry.insert]

theorem delegates_assign (r other : Registry D) :
    (r.assign other).live.map (·.delegate) = other.live.map (·.delegate) := by
  rw [Registry.assign, delegates_foldl_insert]
  rfl

theorem delegates_update (l : MulticastLabel D) (s : ℕ → MulticastDelegate D) (i : ℕ) :
    (update equal l s i).registry.live.map (·.delegate) =
      l.follow (fun d ds => ds.eraseP fun x => equal x d)
        (fun i => (s i).registry.live.map (·.delegate)) i := by
  -- a step writes to one container
  have hset : ∀ {k m ds}, m.registry.live.map (·.delegate) = ds →
      (Function.update s k m i).registry.live.map (·.delegate) =
        Function.update (fun i => (s i).registry.live.map (·.delegate)) k ds i := by
    intro k m ds hm
    by_cases hik : i = k
    · subst hik
      rw [Function.update_self, Function.update_self, hm]
    · rw [Function.update_of_ne hik, Function.update_of_ne hik]
  have hkeep : ∀ {k m}, m.registry = (s k).registry →
      (Function.update s k m i).registry.live.map (·.delegate) =
        (s i).registry.live.map (·.delegate) := by
    intro k m hm
    rw [hset rfl, hm, Function.update_eq_self]
  cases l with
  | insert k d => exact hset (by simp [setRegistry, Registry.insert])
  | remove k d => exact hset (by simp [setRegistry, Registry.remove, List.eraseP_map]; rfl)
  | clear k => exact hset rfl
  | copyAssign k j =>
    simp only [update, MulticastLabel.follow]
    split
    · rename_i hkj
      subst hkj
      rw [Function.update_eq_self]
    · exact hset (delegates_assign _ _)
  | moveAssign k j =>
    simp only [update, MulticastLabel.follow]
    split
    · rfl
    · by_cases hij : i = j
      · subst hij
        rw [Function.update_self, Function.update_self]
        rfl
      · rw [Function.update_of_ne hij, Function.update_of_ne hij]
        exact hset (delegates_assign _ _)
  | broadcast k => exact hkeep rfl
  | visit k => exact hkeep (registry_visit _)
  | callbackReturn k => exact hkeep rfl
  | callbackThrow k | finish k => exact hkeep (registry_leave _)

end MulticastDelegate

/-! ## What is heard -/

namespace Subscribers

open BoundDelegate MulticastDelegate

/-- The delegates that the specification of the container `i` has. -/
def live (s : Subscribers) (i : ℕ) : List BoundDelegate :=
  (s.containers i).registry.live.map (·.delegate)

structure SubscribersInv (F : Set BoundDelegate) (s : Subscribers) : Prop where
  container : ∀ i, MulticastInv (s.containers i)
  known : ∀ i, ∀ d ∈ s.live i, d ∈ F
  heard : ∀ i, s.heardOf (s.live i) = s.heardOf (s.ledger i)

variable {F : Set BoundDelegate} {s : Subscribers}

/-- What the objects' end leaves of what was heard. -/
theorem heardOf_expire (s : Subscribers) (object : ℕ) (l : List BoundDelegate) :
    (update (.expire object) s).heardOf l =
      (s.heardOf l).filter fun d => d.heard (Function.update s.alive object false) := by
  unfold heardOf
  rw [List.filter_filter]
  apply List.filter_congr
  intro d _
  rw [Bool.eq_iff_iff, Bool.and_eq_true]
  refine ⟨fun h => ⟨h, heard_mono ?_ h⟩, fun h => h.1⟩
  intro o ho
  by_cases hobject : o = object
  · subst hobject
    simp [update] at ho
  · simpa [update, Function.update_of_ne hobject] using ho

theorem live_multicast (l : MulticastLabel BoundDelegate) (s : Subscribers) :
    (update (.multicast l) s).live =
      l.follow (fun d ds => ds.eraseP fun x => x.equal s.alive d) s.live := by
  funext i
  exact delegates_update l s.containers i

/-- `-=` takes away a subscription of the delegate itself. -/
theorem heardOf_eraseP (hF : Unconfused F) {d : BoundDelegate} (hd : d ∈ F)
    {ds ds' : List BoundDelegate} (hds : ∀ x ∈ ds, x ∈ F) (hheard : s.heardOf ds = s.heardOf ds') :
    s.heardOf (ds.eraseP fun x => x.equal s.alive d) = s.heardOf (ds'.erase d) := by
  have hself : ∀ x ∈ ds, x.equal s.alive d = true →
      x.heard s.alive = true ∨ d.heard s.alive = true → x = d := by
    intro x hx heq hone
    have hall : x.heard allAlive = true ∨ d.heard allAlive = true :=
      hone.imp (heard_mono fun _ _ => rfl) (heard_mono fun _ _ => rfl)
    exact hF x (hds x hx) d hd hall (equal_allAlive heq hone)
  have herase : s.heardOf (ds'.erase d) = (s.heardOf ds').erase d := List.erase_filter.symm
  rw [herase, ← hheard]
  exact filter_eraseP_eq (equal_refl d) hself

theorem live_mem_follow {l : MulticastLabel BoundDelegate} (huses : l.Uses F)
    {take : BoundDelegate → List BoundDelegate → List BoundDelegate}
    (htake : ∀ d ds, ∀ x ∈ take d ds, x ∈ ds) {ls : ℕ → List BoundDelegate}
    (hls : ∀ i, ∀ d ∈ ls i, d ∈ F) (i : ℕ) : ∀ d ∈ l.follow take ls i, d ∈ F := by
  have hset : ∀ {ls' : ℕ → List BoundDelegate} {k x}, (∀ d ∈ ls' i, d ∈ F) → (∀ d ∈ x, d ∈ F) →
      ∀ d ∈ Function.update ls' k x i, d ∈ F := by
    intro ls' k x hi hx
    by_cases hik : i = k
    · subst hik
      rwa [Function.update_self]
    · rwa [Function.update_of_ne hik]
  cases l with
  | insert k d =>
    refine hset (hls i) ?_
    intro x hx
    rcases List.mem_append.mp hx with hx | hx
    · exact hls k x hx
    · rw [List.mem_singleton.mp hx]
      exact huses
  | remove k d => exact hset (hls i) fun x hx => hls k x (htake d _ x hx)
  | clear k => exact hset (hls i) (by simp)
  | copyAssign k j => exact hset (hls i) (hls j)
  | moveAssign k j =>
    simp only [MulticastLabel.follow]
    split
    · exact hls i
    · exact hset (hset (hls i) (hls j)) (by simp)
  | _ => exact hls i

theorem SubscribersInv.initial (F : Set BoundDelegate) : SubscribersInv F initial where
  container := fun _ => .initial
  known := by simp [live, Subscribers.initial, MulticastDelegate.initial, Registry.empty]
  heard := fun _ => rfl

theorem SubscribersInv.step (hF : Unconfused F) (h : SubscribersInv F s) {l : SubscriberLabel}
    (hg : guard l s) (huses : l.Uses F s) : SubscribersInv F (update l s) := by
  cases l with
  | expire object =>
    refine ⟨h.container, h.known, ?_⟩
    intro i
    have hlive := heardOf_expire s object (s.live i)
    rw [h.heard i, ← heardOf_expire] at hlive
    exact hlive
  | multicast l =>
    constructor
    · intro i
      exact (h.container i).move h.container (move_of_step hg i)
    · intro i
      rw [live_multicast]
      exact live_mem_follow huses (fun d ds x hx => List.mem_of_mem_eraseP hx) h.known i
    · intro i
      rw [live_multicast]
      have hledger : (update (.multicast l) s).ledger =
          l.follow (fun d ds => ds.erase d) s.ledger := rfl
      have hsame : ∀ ds, (update (.multicast l) s).heardOf ds = s.heardOf ds := fun _ => rfl
      rw [hsame, hsame, hledger]
      refine MulticastLabel.follow_congr h.heard ?_ ?_ i
      · -- `+=` adds the same to both
        intro k d _
        have happend : ∀ ds, s.heardOf (ds ++ [d]) = s.heardOf ds ++ s.heardOf [d] :=
          fun ds => List.filter_append ds [d]
        rw [happend, happend, h.heard k]
      · intro k d hl
        subst hl
        exact heardOf_eraseP hF huses (h.known k) (h.heard k)

theorem inv_of_reachable (hF : Unconfused F)
    (hr : subscribersLts.ReachableWhen (SubscriberLabel.Uses F) s) : SubscribersInv F s := by
  refine hr.induct (P := SubscribersInv F) ?_ ?_
  · intro s hs
    rw [show s = Subscribers.initial from hs]
    exact .initial F
  · intro l s _ hg huses ih
    exact ih.step hF hg huses

theorem heardOf_registered (hF : Unconfused F)
    (hr : subscribersLts.ReachableWhen (SubscriberLabel.Uses F) s) (i : ℕ) :
    s.heardOf (s.containers i).registered = s.heardOf (s.ledger i) := by
  have hinv := inv_of_reachable hF hr
  rw [(hinv.container i).registered_eq]
  exact hinv.heard i

/-! ## A confusion shows -/

/-- Two subscriptions, and the second one is cancelled. -/
theorem reachable_insert_remove {a b : BoundDelegate} (ha : a ∈ F) (hb : b ∈ F)
    (heq : a.equal allAlive b = true) (hne : a ≠ b) :
    ∃ s, subscribersLts.ReachableWhen (SubscriberLabel.Uses F) s ∧ s.alive = allAlive ∧
      (s.containers 0).registered = [b] ∧ s.ledger 0 = [a] := by
  have hstart : subscribersLts.ReachableWhen (SubscriberLabel.Uses F) initial := .start rfl
  have hstep : ∀ {s : Subscribers} (l : MulticastLabel BoundDelegate),
      subscribersLts.ReachableWhen (SubscriberLabel.Uses F) s →
      MulticastDelegate.guard l s.containers → l.Uses F →
      subscribersLts.ReachableWhen (SubscriberLabel.Uses F) (update (.multicast l) s) :=
    fun l hr hg huses => Lts.ReachableWhen.next (l := SubscriberLabel.multicast l) hr hg huses
  have hthird := hstep (.remove 0 b)
    (hstep (.insert 0 b) (hstep (.insert 0 a) hstart (Or.inl rfl) ha) (Or.inl rfl) hb)
    (Or.inl rfl) hb
  refine ⟨_, hthird, rfl, ?_, ?_⟩
  · have hfind : a.equal allAlive b = true := heq
    simp [update, Subscribers.initial, MulticastDelegate.update, setRegistry,
      MulticastDelegate.pushBack, MulticastDelegate.initial, registered, MulticastDelegate.remove,
      List.findIdx?_cons, hfind, List.reduceOption]
  · simp [update, Subscribers.initial, MulticastLabel.follow, hne]

end Subscribers

/-- **Whose subscription `-=` takes away.** In every run in which delegates of `F`
are used, with objects that cease to exist and broadcasts whose callbacks change
the containers, the containers hold what was subscribed and not cancelled, as far
as it is heard, if and only if no delegate of `F` is taken for another one. -/
theorem own_subscription_iff (F : Set BoundDelegate) :
    (∀ s, subscribersLts.ReachableWhen (SubscriberLabel.Uses F) s → ∀ i,
      s.heardOf (s.containers i).registered = s.heardOf (s.ledger i)) ↔ Unconfused F := by
  constructor
  · intro hown a ha b hb hone heq
    by_contra hne
    rcases Subscribers.reachable_insert_remove ha hb heq hne with ⟨s, hr, halive, hcode, hledger⟩
    have hsame := hown s hr 0
    rw [hcode, hledger] at hsame
    have hheard : ∀ d, d.heard BoundDelegate.allAlive = true → d ∈ s.heardOf [d] := by
      intro d hd
      rw [← halive] at hd
      exact List.mem_filter.mpr ⟨List.mem_singleton_self d, hd⟩
    rcases hone with h | h
    · have hmem := hheard a h
      rw [← hsame] at hmem
      exact hne (List.mem_singleton.mp (List.mem_filter.mp hmem).1)
    · have hmem := hheard b h
      rw [hsame] at hmem
      exact hne (List.mem_singleton.mp (List.mem_filter.mp hmem).1).symm
  · intro hF s hr i
    exact Subscribers.heardOf_registered hF hr i

/-- **A broadcast reaches the subscribers.** In such a run over a set without
confusions, a delegate that a broadcast is about to call, and that is heard, is one
of the ledger; and a broadcast that has come to its end has called, of what is still
in the container, exactly what is heard of the ledger, each once and in order. -/
theorem broadcast_reaches_subscribers {F : Set BoundDelegate} (hF : Unconfused F)
    {s : Subscribers} (hr : subscribersLts.ReachableWhen (SubscriberLabel.Uses F) s) (i : ℕ) :
    (∀ x, (s.containers i).entry = some (some x) → x.delegate.heard s.alive = true →
      x.delegate ∈ s.ledger i) ∧
    ∀ p ∈ (s.containers i).passes.head?,
      p.delegate.isNone = true ∧ p.it = (s.containers i).delegates.length →
      s.heardOf ((p.invoked.filter fun x => some x ∈ (s.containers i).delegates).map
        (·.delegate)) = s.heardOf (s.ledger i) := by
  have hinv := Subscribers.inv_of_reachable hF hr
  constructor
  · intro x hentry hheard
    have hlive := (hinv.container i).live_of_entry hentry
    have hmem : x.delegate ∈ s.heardOf (s.live i) :=
      List.mem_filter.mpr ⟨List.mem_map_of_mem hlive, hheard⟩
    rw [hinv.heard i] at hmem
    exact (List.mem_filter.mp hmem).1
  · rintro p hhead ⟨hnone, hend⟩
    have hseen := ((hinv.container i).pass p (List.mem_of_mem_head? hhead)).seen
    have hpos : p.position = (s.containers i).delegates.length := by
      rw [← hend]
      simp [Pass.position, Option.isNone_iff_eq_none.mp hnone]
    -- the iterator has passed every entry
    rw [hpos, List.take_length, (hinv.container i).entries] at hseen
    have hfilter : (p.invoked.filter fun x => some x ∈ (s.containers i).delegates) =
        p.invoked.filter fun x => x ∈ (s.containers i).registry.live := by
      apply List.filter_congr
      intro x _
      rw [decide_eq_decide, ← (hinv.container i).entries]
      exact List.reduceOption_mem_iff.symm
    rw [hfilter, hseen]
    exact hinv.heard i

/-- The first callback cancels the second subscription, and the object of the third
one is gone before its turn. -/
theorem broadcast_reaches_subscribers_run :
    ∃ s : Subscribers, s.ledger 0 = [⟨.free (some 7), .async (some 1) .normal, rfl⟩,
        ⟨.memberSp 3 (some 4) (some 5), .sync, rfl⟩] ∧
      ∃ p ∈ (s.containers 0).passes.head?,
        s.heardOf ((p.invoked.filter fun x => some x ∈ (s.containers 0).delegates).map
          (·.delegate)) = s.heardOf (s.ledger 0) := by
  have hF : Unconfused {d | d ∈ ([⟨.free (some 7), .async (some 1) .normal, rfl⟩,
      ⟨.free (some 8), .async (some 1) .normal, rfl⟩,
      ⟨.memberSp 3 (some 4) (some 5), .sync, rfl⟩] : List BoundDelegate)} := by
    show ∀ a ∈ ([_, _, _] : List BoundDelegate), ∀ b ∈ ([_, _, _] : List BoundDelegate), _
    decide
  have hrun := Lts.execWhen_reachable subscribersLts
    (SubscriberLabel.Uses {d | d ∈ ([⟨.free (some 7), .async (some 1) .normal, rfl⟩,
      ⟨.free (some 8), .async (some 1) .normal, rfl⟩,
      ⟨.memberSp 3 (some 4) (some 5), .sync, rfl⟩] : List BoundDelegate)})
    (show subscribersLts.init Subscribers.initial from rfl)
    [.multicast (.insert 0 ⟨.free (some 7), .async (some 1) .normal, rfl⟩),
      .multicast (.insert 0 ⟨.free (some 8), .async (some 1) .normal, rfl⟩),
      .multicast (.insert 0 ⟨.memberSp 3 (some 4) (some 5), .sync, rfl⟩),
      .multicast (.broadcast 0), .multicast (.visit 0),
      .multicast (.remove 0 ⟨.free (some 8), .async (some 1) .normal, rfl⟩), .expire 4,
      .multicast (.callbackReturn 0), .multicast (.visit 0), .multicast (.visit 0),
      .multicast (.callbackReturn 0)]
    (fun s => s.ledger 0 = [⟨.free (some 7), .async (some 1) .normal, rfl⟩,
        ⟨.memberSp 3 (some 4) (some 5), .sync, rfl⟩] &&
      (s.containers 0).passes.head?.any fun p =>
        p.delegate.isNone && p.it = (s.containers 0).delegates.length)
    (by decide +kernel)
  rcases hrun with ⟨s, hr, hp⟩
  rw [Bool.and_eq_true, decide_eq_true_eq] at hp
  rcases (Option.any_eq_true _ _).mp hp.2 with ⟨p, hhead, hend⟩
  rw [Bool.and_eq_true, decide_eq_true_eq] at hend
  exact ⟨s, hp.1, p, hhead, (broadcast_reaches_subscribers hF hr 0).2 p hhead hend⟩

end AsyncSqlite
