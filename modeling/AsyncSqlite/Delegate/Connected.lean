import AsyncSqlite.Delegate.LiveSignal

/-!
# AsyncSqlite.Delegate.Connected — what `IsConnected` says

A handle keeps a flag of its own, which only its own operations change. As long
as the list loses subscribers through their handles alone, the flag says whether
the subscriber is in the list (`isConnected_iff`): every handle that holds a
subscription holds a live one, and no two hold the same (`HolderInv`). `Clear`
and the destructor of the signal empty the list without the handles.
-/

namespace AsyncSqlite

universe u

variable {D : Type u} {sbo : ℕ} {s : Signal D} {a : LiveSignal D} {l : SignalLabel D}

/-! ## Handles and live subscriptions -/

namespace LiveSignal

structure HolderInv (a : LiveSignal D) : Prop where
  live : ∀ h n, a.holder h = some (some n) → n ∈ a.live
  known : ∀ h n, a.holder h = some (some n) → n < a.subscribed.length
  unique : ∀ h h' n, a.holder h = some (some n) → a.holder h' = some (some n) → h = h'

/-- A handle that lets go of what it has, or never had anything. -/
theorem HolderInv.release (h : HolderInv a) (k : ℕ) {x : Option (Option ℕ)}
    (hx : ∀ n, x ≠ some (some n)) : HolderInv (a.setHolder k x) := by
  have hold : ∀ h n, (a.setHolder k x).holder h = some (some n) → a.holder h = some (some n) := by
    intro h n hn
    by_cases hk : h = k
    · subst hk
      simp only [setHolder, Function.update_self] at hn
      exact absurd hn (hx n)
    · simpa only [setHolder, Function.update_of_ne hk] using hn
  exact ⟨fun k n hn => h.live k n (hold k n hn), fun k n hn => h.known k n (hold k n hn),
    fun k k' n hn hn' => h.unique k k' n (hold k n hn) (hold k' n hn')⟩

theorem HolderInv.disconnect (h : HolderInv a) (k : ℕ) : HolderInv (a.disconnect k) := by
  unfold LiveSignal.disconnect
  split
  · rename_i n hk
    have hrel := h.release k (x := some none) (by simp)
    refine ⟨fun k' m hm => ?_, hrel.known, hrel.unique⟩
    -- another handle holds another subscription
    have hne : k' ≠ k := by
      rintro rfl
      simp [setHolder] at hm
    simp only [setHolder, Function.update_of_ne hne] at hm
    have hmn : m ≠ n := by
      rintro rfl
      exact hne (h.unique k' k m hm hk)
    exact List.mem_filter.mpr ⟨h.live k' m hm, by simpa using hmn⟩
  · exact h

/-- A move passes the subscription on. -/
theorem HolderInv.moveConstruct (h : HolderInv a) (k other : ℕ) :
    HolderInv (a.moveConstruct k other) := by
  -- behind the move `k` holds what `other` held, and `other` nothing
  have hold : ∀ j n, (a.moveConstruct k other).holder j = some (some n) →
      j ≠ other ∧
        (j = k ∧ a.holder other = some (some n) ∨ j ≠ k ∧ a.holder j = some (some n)) := by
    intro j n hn
    by_cases ho : j = other
    · subst ho
      simp [LiveSignal.moveConstruct, setHolder] at hn
    · simp only [LiveSignal.moveConstruct, setHolder, Function.update_of_ne ho] at hn
      by_cases hk : j = k
      · subst hk
        rw [Function.update_self] at hn
        exact ⟨ho, Or.inl ⟨rfl, hn⟩⟩
      · rw [Function.update_of_ne hk] at hn
        exact ⟨ho, Or.inr ⟨hk, hn⟩⟩
  refine ⟨fun j n hn => ?_, fun j n hn => ?_, fun j j' n hn hn' => ?_⟩
  · obtain ⟨-, ⟨-, hj⟩ | ⟨-, hj⟩⟩ := hold j n hn
    · exact h.live other n hj
    · exact h.live j n hj
  · obtain ⟨-, ⟨-, hj⟩ | ⟨-, hj⟩⟩ := hold j n hn
    · exact h.known other n hj
    · exact h.known j n hj
  · obtain ⟨hjo, ⟨hjk, hj⟩ | ⟨-, hj⟩⟩ := hold j n hn
    · obtain ⟨hjo', ⟨hjk', -⟩ | ⟨-, hj'⟩⟩ := hold j' n hn'
      · rw [hjk, hjk']
      · exact absurd (h.unique j' other n hj' hj) hjo'
    · obtain ⟨-, ⟨-, hj'⟩ | ⟨-, hj'⟩⟩ := hold j' n hn'
      · exact absurd (h.unique j other n hj hj') hjo
      · exact h.unique j j' n hj hj'

theorem HolderInv.connect (h : HolderInv a) (k : ℕ) (d : D) : HolderInv (a.connect k d) := by
  have hold : ∀ j n, (a.connect k d).holder j = some (some n) →
      j = k ∧ n = a.subscribed.length ∨ j ≠ k ∧ a.holder j = some (some n) := by
    intro j n hn
    by_cases hk : j = k
    · subst hk
      simp only [LiveSignal.connect, setHolder, Function.update_self, Option.some.injEq] at hn
      exact Or.inl ⟨rfl, hn.symm⟩
    · simp only [LiveSignal.connect, setHolder, Function.update_of_ne hk] at hn
      exact Or.inr ⟨hk, hn⟩
  refine ⟨fun j n hn => ?_, fun j n hn => ?_, fun j j' n hn hn' => ?_⟩
  · rcases hold j n hn with ⟨-, rfl⟩ | ⟨-, hj⟩
    · exact List.mem_append_right _ (List.mem_singleton_self _)
    · exact List.mem_append_left _ (h.live j n hj)
  · simp only [LiveSignal.connect, List.length_append, List.length_singleton]
    rcases hold j n hn with ⟨-, rfl⟩ | ⟨-, hj⟩
    · omega
    · have := h.known j n hj
      omega
  · -- the new number is larger than every number held so far
    rcases hold j n hn with ⟨rfl, rfl⟩ | ⟨-, hj⟩
    · rcases hold j' _ hn' with ⟨rfl, -⟩ | ⟨-, hj'⟩
      · rfl
      · exact absurd (h.known j' _ hj') (Nat.lt_irrefl _)
    · rcases hold j' n hn' with ⟨-, rfl⟩ | ⟨-, hj'⟩
      · exact absurd (h.known j _ hj) (Nat.lt_irrefl _)
      · exact h.unique j j' n hj hj'

/-- With nothing live no handle holds anything. -/
theorem HolderInv.clear (h : HolderInv a) (hlive : a.live = []) (b : Bool) :
    HolderInv { a with live := [], destroyed := b } := by
  rw [← hlive]
  exact ⟨h.live, h.known, h.unique⟩

theorem HolderInv.step (h : HolderInv a)
    (hok : l = .clearSwap ∨ l = .destroy → a.live = []) : HolderInv (update l a) := by
  cases l with
  | create k => exact h.release k (by simp)
  | connect k d => exact h.connect k d
  | disconnect k => exact h.disconnect k
  | moveConstruct k other => exact h.moveConstruct k other
  | moveAssign k other =>
    by_cases hk : k = other
    · simpa [update, hk] using h
    · simpa [update, hk] using (h.disconnect k).moveConstruct k other
  | destroyConnection k => exact (h.disconnect k).release k (by simp)
  | clearSwap => exact h.clear (hok (Or.inl rfl)) a.destroyed
  | destroy => exact h.clear (hok (Or.inr rfl)) true
  | clearMark old => exact h
  | fire => exact ⟨h.live, h.known, h.unique⟩
  | next i => exact ⟨h.live, h.known, h.unique⟩

end LiveSignal

/-! ## Handles that are not connected -/

namespace Signal

/-- A handle that is not connected has no subscriber. -/
def FreeEmpty (s : Signal D) : Prop :=
  ∀ h c, s.connection h = some c → c.connected = false → c.ctx2 = none

theorem FreeEmpty.set (hs : FreeEmpty s) (h : ℕ) {x : Option Connection}
    (hx : ∀ c, x = some c → c.connected = false → c.ctx2 = none) :
    FreeEmpty (s.setConnection h x) := by
  intro k c hc
  by_cases hk : k = h
  · subst hk
    simp only [setConnection, Function.update_self] at hc
    exact hx c hc
  · simp only [setConnection, Function.update_of_ne hk] at hc
    exact hs k c hc

theorem FreeEmpty.setEmpty (hs : FreeEmpty s) (h : ℕ) :
    FreeEmpty (s.setConnection h (some .empty)) := by
  refine hs.set h fun c hc _ => ?_
  rw [← Option.some.inj hc]
  rfl

theorem FreeEmpty.disconnect (hs : FreeEmpty s) (h : ℕ) : FreeEmpty (s.disconnect h) := by
  unfold Signal.disconnect
  split
  · rename_i c hc
    split
    · refine FreeEmpty.setEmpty ?_ h
      split
      · rw [disconnectImpl_eq]
        exact hs
      · exact hs
    · exact hs
  · exact hs

theorem FreeEmpty.moveConstruct (hs : FreeEmpty s) (h other : ℕ) :
    FreeEmpty (s.moveConstruct h other) :=
  (hs.set h fun c hc => hs other c hc).setEmpty other

theorem FreeEmpty.step (hs : FreeEmpty s) : FreeEmpty (update sbo l s) := by
  cases l with
  | create h => exact hs.setEmpty h
  | connect h d =>
    have hcopies : FreeEmpty ({ s with copies := s.copies ++ [d] }.setBlock s.state
        { s.block s.state with delegates := (s.block s.state).delegates ++ [s.copies.length] }) :=
      hs
    refine hcopies.set h fun c hc hcon => ?_
    rw [← Option.some.inj hc] at hcon
    cases hcon
  | disconnect h => exact hs.disconnect h
  | moveConstruct h other => exact hs.moveConstruct h other
  | moveAssign h other =>
    simp only [update, Signal.moveAssign]
    split
    · exact hs
    · exact ((hs.disconnect h).disconnect h).moveConstruct h other
  | destroyConnection h => exact (hs.disconnect h).set h fun c hc => by cases hc
  | clearSwap => exact hs
  | clearMark old => exact hs
  | fire => exact hs
  | next i => exact hs
  | destroy => exact hs

/-! ## Main result -/

/-- `Clear` and the destructor find nobody subscribed. -/
def NothingCleared (l : SignalLabel D) (s : Signal D) : Prop :=
  match l with
  | .clearSwap | .destroy => s.delegates = []
  | _ => True

instance : Decidable (NothingCleared l s) :=
  match l with
  | .clearSwap | .destroy => inferInstanceAs (Decidable (s.delegates = []))
  | .create _ | .connect _ _ | .disconnect _ | .moveConstruct _ _ | .moveAssign _ _
  | .destroyConnection _ | .clearMark _ | .fire | .next _ => isTrue trivial

theorem holders_of_reachable (h : (signalLts D sbo).ReachableWhen NothingCleared s) :
    FreeEmpty s ∧ ∃ a, Refines sbo s a ∧ LiveSignal.HolderInv a := by
  refine h.induct (P := fun s => FreeEmpty s ∧ ∃ a, Refines sbo s a ∧ LiveSignal.HolderInv a) ?_ ?_
  · rintro s rfl
    refine ⟨fun h c hc => by simp [initial] at hc, LiveSignal.initial, .initial, ?_⟩
    constructor <;> simp [LiveSignal.initial]
  · rintro l s - hg hok ⟨hfree, a, hr, hh⟩
    refine ⟨hfree.step, LiveSignal.update l a, ((simulation D sbo).step l s a hr hg).2, hh.step ?_⟩
    rintro (rfl | rfl)
    · rw [← hr.live]
      exact hok
    · rw [← hr.live]
      exact hok

/-- In every run in which `Clear` and the destructor find nobody subscribed,
`IsConnected` says whether the subscriber of the handle is in the list that a
fire would use. -/
theorem isConnected_iff (h : (signalLts D sbo).ReachableWhen NothingCleared s) {k : ℕ}
    {c : Connection} (hc : s.connection k = some c) :
    s.isConnected k = true ↔ ∃ n, c.ctx2 = some n ∧ n ∈ s.delegates := by
  obtain ⟨hfree, a, hr, hh⟩ := holders_of_reachable h
  have hk := hr.handle k
  have hcon : s.isConnected k = c.connected := by simp [isConnected, hc]
  rw [hcon]
  rw [hc] at hk
  generalize hy : a.holder k = y at hk
  rcases hk with _ | ⟨_, hcf⟩ | ⟨_, n, hct, ho⟩
  · have hnone := hfree k c hc hcf
    simp [hcf, hnone]
  · rw [hct]
    refine iff_of_true rfl ⟨n, ho.copy, ?_⟩
    rw [hr.live]
    exact hh.live k n hy

/-- One subscriber disconnects, another is moved, and the list is cleared when
both are gone. -/
theorem isConnected_iff_run : ∃ s : Signal ℕ, (signalLts ℕ 1).ReachableWhen NothingCleared s ∧
    ∃ c, s.connection 3 = some c ∧
      (s.isConnected 3 = true ↔ ∃ n, c.ctx2 = some n ∧ n ∈ s.delegates) := by
  obtain ⟨s, hs, hp⟩ := (signalLts ℕ 1).execWhen_reachable NothingCleared rfl
    [.connect 0 7, .connect 1 7, .disconnect 1, .moveConstruct 2 0, .destroyConnection 2,
      .clearSwap, .clearMark 0, .connect 3 8]
    (fun s => s.connection 3 = some ⟨some 1, some 2, true, true⟩) (by decide)
  have hc : s.connection 3 = some ⟨some 1, some 2, true, true⟩ := of_decide_eq_true hp
  exact ⟨s, hs, _, hc, isConnected_iff hs hc⟩

/-- A handle stays connected over a `Clear` that took its subscriber away. -/
theorem not_isConnected_iff : ∃ s : Signal ℕ, (signalLts ℕ 1).Reachable s ∧
    s.isConnected 0 = true ∧ (s.connection 0).bind (·.ctx2) = some 0 ∧ s.delegates = [] := by
  obtain ⟨s, hs, hp⟩ := (signalLts ℕ 1).execWhen_reachable Lts.always rfl
    [.connect 0 7, .clearSwap, .clearMark 0]
    (fun s => s.isConnected 0 = true ∧ (s.connection 0).bind (·.ctx2) = some 0 ∧ s.delegates = [])
    (by decide)
  exact ⟨s, hs, of_decide_eq_true hp⟩

end Signal

end AsyncSqlite
