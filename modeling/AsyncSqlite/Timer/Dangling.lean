import AsyncSqlite.Timer.Paced

/-!
# AsyncSqlite.Timer.Dangling — the clone that a queued tick refers to

A message of `operator()` refers to its clone by a plain pointer. It keeps its
token alive, and not the clone: where the list, the connection and the snapshots
let go of a clone while a message of it is outstanding, the message runs on a
destroyed one (`tick_runs_on_destroyed`). This is the order of `Stop`: it
disconnects the timer and then lets `ExitThread` drain the queue.

`lastOwned` names the clones that a step destroys. A run that destroys none with
an outstanding message keeps every message safe (`tick_refers_to_owned`).
-/

namespace AsyncSqlite

namespace PacedSys

variable {cfg : Config} {made : ℕ → TimerDelegate} {s s' : PacedSys} {l : PacedLabel}

/-! ## The last owner -/

/-- The clones whose last owner goes with this step. -/
def lastOwned (l : PacedLabel) (s : PacedSys) : List ℕ :=
  match l with
  | .disconnectReset k => [k].filter fun k => ¬ (s.listed k ∨ snapped s.snapshots k)
  | .clear σ =>
    (s.delegates σ).filter fun k =>
      s.timer k = σ ∧ ¬ (s.handle k ≠ .none ∨ snapped s.snapshots k)
  | .release =>
    (s.snapshots.headD []).filter fun k =>
      ¬ (s.listed k ∨ s.handle k ≠ .none ∨ snapped s.snapshots.tail k)
  | .tickReturn =>
    -- an exception leaves `ProcessTimers` with all of its snapshots
    match s.timers with
    | .dispatching _ i _ =>
      match s.thread.dispatch i with
      | .threw _ => s.snapshots.flatten.filter fun k => ¬ (s.listed k ∨ s.handle k ≠ .none)
      | _ => []
    | _ => []
  | _ => []

/-- No step destroys a clone with an outstanding message. -/
def KeepsTicks (l : PacedLabel) (s : PacedSys) : Prop := ∀ k ∈ lastOwned l s, s.ticks k = []

instance (l : PacedLabel) (s : PacedSys) : Decidable (KeepsTicks l s) :=
  inferInstanceAs (Decidable (∀ k ∈ lastOwned l s, s.ticks k = []))

theorem snapped_cons {ds : List ℕ} {snapshots : List (List ℕ)} {k : ℕ} :
    snapped (ds :: snapshots) k ↔ k ∈ ds ∨ snapped snapshots k := by
  simp [snapped]

/-- Steps that leave the lists, the connections and the snapshots alone. -/
theorem owned_congr (htimer : s'.timer = s.timer) (hdel : s'.delegates = s.delegates)
    (hhandle : s'.handle = s.handle) (hsnap : s'.snapshots = s.snapshots) (k : ℕ) :
    s'.owned k ↔ s.owned k := by
  unfold owned listed
  rw [htimer, hdel, hhandle, hsnap]

theorem apply_owners (s : PacedSys) (e : ThreadState.CustodyEvent) :
    (s.apply e).timer = s.timer ∧ (s.apply e).delegates = s.delegates ∧
      (s.apply e).handle = s.handle ∧ (s.apply e).snapshots = s.snapshots := by
  cases e <;> exact ⟨rfl, rfl, rfl, rfl⟩

theorem owned_threadStep (s : PacedSys) (l : ThreadLabel) (k : ℕ) :
    (s.threadStep cfg l).owned k ↔ s.owned k := by
  obtain ⟨htimer, hdel, hhandle, hsnap⟩ := apply_owners s (ThreadState.event cfg l s.thread)
  exact owned_congr htimer hdel hhandle hsnap k

theorem owned_tick (s : PacedSys) (i now k : ℕ) : (s.tick i now).owned k ↔ s.owned k := by
  unfold tick
  split
  · unfold operatorCall
    dsimp only
    split
    · exact owned_congr rfl rfl rfl rfl k
    · exact owned_congr rfl rfl rfl rfl k
  · exact Iff.rfl

/-- The new clone is owned by its list and its connection; the others keep what
they have. -/
theorem owned_connect (s : PacedSys) (σ : ℕ) {k : ℕ} (hk : s.owned k) :
    (s.connect σ).owned k := by
  by_cases hnew : k = s.clones
  · subst hnew
    exact Or.inr (Or.inl (by simp [connect]))
  rcases hk with hlist | hhandle | hsnap
  · left
    unfold listed at hlist ⊢
    simp only [connect, Function.update_of_ne hnew]
    by_cases hσ : s.timer k = σ
    · rw [hσ] at hlist
      rw [hσ, Function.update_self]
      exact List.mem_append_left _ hlist
    · rw [Function.update_of_ne hσ]
      exact hlist
  · refine Or.inr (Or.inl ?_)
    simp only [connect, Function.update_of_ne hnew]
    exact hhandle
  · exact Or.inr (Or.inr hsnap)

/-- Behind `DisconnectImpl` the connection still has `m_ctx2`. -/
theorem owned_disconnectImpl (s : PacedSys) (j : ℕ) {k : ℕ} (hk : s.owned k) :
    (s.disconnectImpl j).owned k := by
  by_cases hj : k = j
  · subst hj
    exact Or.inr (Or.inl (by simp [disconnectImpl]))
  rcases hk with hlist | hhandle | hsnap
  · left
    unfold listed at hlist ⊢
    simp only [disconnectImpl]
    by_cases ht : s.timer k = s.timer j
    · rw [ht] at hlist
      rw [ht, Function.update_self]
      exact List.mem_filter.mpr ⟨hlist, by simpa using hj⟩
    · rw [Function.update_of_ne ht]
      exact hlist
  · refine Or.inr (Or.inl ?_)
    simp only [disconnectImpl, Function.update_of_ne hj]
    exact hhandle
  · exact Or.inr (Or.inr hsnap)

/-- A clone is destroyed by a step that `lastOwned` names, and by no other. -/
theorem owned_step (cfg : Config) {k : ℕ} (hk : s.owned k) :
    (update cfg l s).owned k ∨ k ∈ lastOwned l s := by
  cases l with
  | thread l => exact Or.inl ((owned_threadStep s l k).mpr hk)
  | connect σ => exact Or.inl (owned_connect s σ hk)
  | disconnectImpl j => exact Or.inl (owned_disconnectImpl s j hk)
  | disconnectReset j =>
    by_cases hj : k = j
    · subst hj
      by_cases hrest : s.listed k ∨ snapped s.snapshots k
      · left
        rcases hrest with hlist | hsnap
        · exact Or.inl hlist
        · exact Or.inr (Or.inr hsnap)
      · right
        simp only [lastOwned, List.mem_filter, List.mem_singleton, true_and, decide_eq_true_eq]
        exact hrest
    · left
      rcases hk with hlist | hhandle | hsnap
      · exact Or.inl hlist
      · refine Or.inr (Or.inl ?_)
        simp only [update, Function.update_of_ne hj]
        exact hhandle
      · exact Or.inr (Or.inr hsnap)
  | clear σ =>
    by_cases hrest : s.handle k ≠ .none ∨ snapped s.snapshots k
    · exact Or.inl (Or.inr hrest)
    · have hlist := hk.resolve_right hrest
      by_cases hσ : s.timer k = σ
      · right
        rw [listed, hσ] at hlist
        simp only [lastOwned, List.mem_filter, decide_eq_true_eq]
        exact ⟨hlist, hσ, hrest⟩
      · left
        left
        unfold listed at hlist ⊢
        simp only [update, clear, Function.update_of_ne hσ]
        exact hlist
  | processTimers => exact Or.inl ((owned_congr rfl rfl rfl rfl k).mpr hk)
  | getSnapshot σ =>
    left
    rcases hk with hlist | hhandle | ⟨ds, hds, hmem⟩
    · exact Or.inl hlist
    · exact Or.inr (Or.inl hhandle)
    · exact Or.inr (Or.inr ⟨ds, List.mem_append_left _ hds, hmem⟩)
  | unlock => exact Or.inl ((owned_congr rfl rfl rfl rfl k).mpr hk)
  | tick i now => exact Or.inl ((owned_tick s i now k).mpr hk)
  | tickReturn =>
    cases ht : s.timers with
    | dispatching k' i rest =>
      cases hd : s.thread.dispatch i with
      | threw m =>
        -- only the exception gives up snapshots
        simp only [update, tickReturn, lastOwned, ht, hd]
        by_cases hrest : s.listed k ∨ s.handle k ≠ .none
        · left
          rcases hrest with hlist | hhandle
          · exact Or.inl hlist
          · exact Or.inr (Or.inl hhandle)
        · right
          have hsnap : snapped s.snapshots k := by
            rcases hk with hlist | hhandle | hsnap
            · exact absurd (Or.inl hlist) hrest
            · exact absurd (Or.inr hhandle) hrest
            · exact hsnap
          obtain ⟨ds, hds, hmem⟩ := hsnap
          refine List.mem_filter.mpr ⟨List.mem_flatten.mpr ⟨ds, hds, hmem⟩, ?_⟩
          exact decide_eq_true hrest
      | _ =>
        left
        simp only [update, tickReturn, ht, hd]
        exact (owned_congr rfl rfl rfl rfl k).mpr hk
    | _ =>
      left
      simpa only [update, tickReturn, ht] using hk
  | release =>
    -- the clone goes when the snapshot in front was the last to own it
    by_cases hrest : s.listed k ∨ s.handle k ≠ .none ∨ snapped s.snapshots.tail k
    · exact Or.inl hrest
    · right
      simp only [lastOwned, List.mem_filter, decide_eq_true_eq]
      refine ⟨?_, hrest⟩
      rcases hk with hlist | hhandle | hsnap
      · exact absurd (Or.inl hlist) hrest
      · exact absurd (Or.inr (Or.inl hhandle)) hrest
      · cases hs : s.snapshots with
        | nil =>
          rw [hs] at hsnap
          obtain ⟨ds, hds, -⟩ := hsnap
          cases hds
        | cons ds rest =>
          rw [hs] at hsnap hrest
          rcases snapped_cons.mp hsnap with hmem | hmem
          · exact hmem
          · exact absurd (Or.inr (Or.inr hmem)) hrest

/-! ## The invariant -/

/-- The clones that `ProcessTimers` has not come to, or is calling. -/
def TimersPc.uses : TimersPc → List ℕ
  | .invoking rest => rest
  | .dispatching k _ rest => k :: rest
  | _ => []

structure OwnerInv (s : PacedSys) : Prop where
  /-- the clones in use are in the snapshot in use -/
  current : ∀ k ∈ TimersPc.uses s.timers, k ∈ s.snapshots.headD []
  outstanding : ∀ m ∈ s.thread.outstanding, ∀ k, s.source m.id = some k → s.owned k

theorem snapped_of_head {k : ℕ} (hk : k ∈ s.snapshots.headD []) : snapped s.snapshots k := by
  cases hs : s.snapshots with
  | nil =>
    rw [hs] at hk
    cases hk
  | cons ds rest =>
    rw [hs] at hk
    exact ⟨ds, List.mem_cons_self, hk⟩

theorem uses_nextPc (snapshots : List (List ℕ)) :
    TimersPc.uses (nextPc snapshots) = snapshots.headD [] := by
  cases snapshots <;> rfl

/-- The step takes a clone with an outstanding message along. -/
theorem OwnerInv.outstanding_step (h : OwnerInv s) (cfg : Config) (hok : KeepsTicks l s)
    (hthread : (update cfg l s).thread = s.thread)
    (hsource : ∀ m ∈ s.thread.outstanding, (update cfg l s).source m.id = s.source m.id) :
    ∀ m ∈ (update cfg l s).thread.outstanding, ∀ k,
      (update cfg l s).source m.id = some k → (update cfg l s).owned k := by
  rw [hthread]
  intro m hm k hk
  rw [hsource m hm] at hk
  rcases owned_step cfg (h.outstanding m hm k hk) with howned | hlast
  · exact howned
  · have hmem : m ∈ s.ticks k := List.mem_filter.mpr ⟨hm, decide_eq_true hk⟩
    rw [hok k hlast] at hmem
    cases hmem

/-- A message that a step of the thread adds is one that is being dispatched. -/
theorem outstanding_of_step {l : ThreadLabel} (hi : GateInv s)
    (hr : (threadLts cfg).Reachable s.thread) (hg : ThreadState.guard l s.thread) {i : ℕ}
    (hsrc : s.source i ≠ none)
    (hm : tickMsg i ∈ (ThreadState.update cfg l s.thread).outstanding) :
    tickMsg i ∈ s.thread.outstanding ∨ .call ∈ s.msg i := by
  have hmoves := ThreadState.custody_step hr hg (m := tickMsg i) rfl
  have henabled := ThreadState.event_enabled cfg hg (ThreadState.sound_of_reachable hr)
  simp only [ThreadState.outstanding, List.mem_append] at hm ⊢
  cases hev : ThreadState.event cfg l s.thread with
  | none =>
    rw [hev] at hmoves
    obtain ⟨hp, hrun⟩ := hmoves
    rw [hp, hrun] at hm
    exact Or.inl hm
  -- only `DispatchDelegate` adds a message, and `operator()` is in it
  | post x =>
    rw [hev] at hmoves henabled
    obtain ⟨hp, hrun⟩ := hmoves
    rw [hp, hrun] at hm
    rcases hm with (hm | rfl) | hm
    · exact Or.inl (Or.inl hm)
    · exact Or.inr (hi.call_of_inFlight hsrc henabled.1)
    · exact Or.inl (Or.inr hm)
  | enter x =>
    rw [hev] at hmoves henabled
    obtain ⟨hp, hrun⟩ := hmoves
    rw [hp, hrun] at hm
    rcases hm with hm | hm | rfl
    · exact Or.inl (Or.inl hm.1)
    · exact Or.inl (Or.inr hm)
    · exact Or.inl (Or.inl henabled)
  | leave x | unwind x =>
    rw [hev] at hmoves
    obtain ⟨hp, hrun⟩ := hmoves
    rw [hp, hrun] at hm
    rcases hm with hm | hm
    · exact Or.inl (Or.inl hm)
    · exact Or.inl (Or.inr hm.1)
  | clear xs =>
    rw [hev] at hmoves
    obtain ⟨hp, hrun⟩ := hmoves
    rw [hp, hrun] at hm
    rcases hm with hm | hm
    · exact Or.inl (Or.inl hm.1)
    · exact Or.inl (Or.inr hm)

theorem OwnerInv.initial : OwnerInv (initial made) := by
  constructor
  · simp [PacedSys.initial, TimersPc.uses]
  · simp [PacedSys.initial]

/-- While a clone is called, the snapshot in use owns it. -/
theorem OwnerInv.owned_of_call (h : OwnerInv s) {k i : ℕ} (hcall : s.timers.call = some (k, i)) :
    s.owned k := by
  refine Or.inr (Or.inr (snapped_of_head (h.current k ?_)))
  cases ht : s.timers with
  | dispatching k' i' rest =>
    rw [ht] at hcall
    cases hcall
    exact List.mem_cons_self
  | _ =>
    rw [ht] at hcall
    cases hcall

theorem OwnerInv.thread {l : ThreadLabel} (h : OwnerInv s) (hi : GateInv s)
    (hi' : GateInv (s.threadStep cfg l)) (hr : (threadLts cfg).Reachable s.thread)
    (hg : ThreadState.guard l s.thread) : OwnerInv (s.threadStep cfg l) := by
  have hsource : (s.threadStep cfg l).source = s.source :=
    (apply_eq s (ThreadState.event cfg l s.thread)).2.1
  have htimers : (s.threadStep cfg l).timers = s.timers :=
    (apply_eq s (ThreadState.event cfg l s.thread)).2.2
  have hsnap : (s.threadStep cfg l).snapshots = s.snapshots :=
    (apply_owners s (ThreadState.event cfg l s.thread)).2.2.2
  constructor
  · rw [htimers, hsnap]
    exact h.current
  · intro m hm k hk
    have hs' : (s.threadStep cfg l).thread.Sound :=
      ThreadState.sound_of_reachable (hr.next hg trivial)
    have hmem : m ∈ (s.threadStep cfg l).ticks k :=
      List.mem_filter.mpr ⟨hm, decide_eq_true hk⟩
    have heq := (hi'.of_mem_ticks hs' hmem).2.1
    rw [hsource] at hk
    rw [owned_threadStep]
    have hne : s.source m.id ≠ none := by simp [hk]
    rw [heq] at hm
    rcases outstanding_of_step hi hr hg hne hm with hold | hcall
    · rw [← heq] at hold
      exact h.outstanding m hold k hk
    · exact h.owned_of_call ((hi.call m.id k hk).mp hcall)

theorem OwnerInv.step (h : OwnerInv s) (hi : GateInv s) (hi' : GateInv (update cfg l s))
    (hr : (threadLts cfg).Reachable s.thread) (hg : guard l s) (hok : KeepsTicks l s) :
    OwnerInv (update cfg l s) := by
  have hkeep := h.outstanding_step cfg hok
  cases l with
  | thread l => exact h.thread hi hi' hr hg.1
  | connect σ | disconnectImpl k | disconnectReset k | clear σ =>
    exact ⟨h.current, hkeep rfl fun _ _ => rfl⟩
  | processTimers => exact ⟨by simp [update, TimersPc.uses], hkeep rfl fun _ _ => rfl⟩
  | getSnapshot σ =>
    have ht : s.timers = .collecting := hg
    exact ⟨by simp [update, ht, TimersPc.uses], hkeep rfl fun _ _ => rfl⟩
  | unlock =>
    refine ⟨?_, hkeep rfl fun _ _ => rfl⟩
    intro k hk
    simp only [update, uses_nextPc] at hk
    exact hk
  | tick i now =>
    obtain ⟨hnext, hsrc, hidle⟩ := hg
    unfold next at hnext
    split at hnext
    · rename_i k rest ht
      have hcur := h.current
      rw [ht] at hcur
      rcases tick_cases s i now ht with ⟨-, heq⟩ | ⟨-, heq⟩
      · refine ⟨?_, hkeep (by simp only [update, heq]) fun m _ => by simp only [update, heq]⟩
        simp only [update, heq]
        exact fun j hj => hcur j (List.mem_cons_of_mem k hj)
      · refine ⟨?_, hkeep (by simp only [update, heq]) fun m hm => ?_⟩
        · simp only [update, heq]
          exact hcur
        · -- the number of the new message is not in use
          have hne : m.id ≠ i := by
            rintro rfl
            have hpush := ThreadState.mem_pushed_of_outstanding
              (ThreadState.sound_of_reachable hr) hm
            rw [((ThreadState.sound_of_reachable hr).history.mem_pushed m).mp hpush] at hidle
            cases hidle
          simp only [update, heq, Function.update_of_ne hne]
    · exact absurd rfl hnext
  | tickReturn =>
    have hcur := h.current
    simp only [guard, callDone] at hg
    split at hg
    · rename_i k i rest ht
      rw [ht] at hcur
      split at hg
      · rename_i m ok hret
        have heq : update cfg .tickReturn s =
            { s.letGo [i] .call with timers := .invoking rest } := by
          simp [update, tickReturn, ht, hret]
        refine ⟨?_, hkeep (by rw [heq]; rfl) fun m _ => by rw [heq]; rfl⟩
        rw [heq]
        exact fun j hj => hcur j (List.mem_cons_of_mem k hj)
      · rename_i m hthrew
        have heq : update cfg .tickReturn s =
            { s.letGo [i] .call with timers := .idle, snapshots := [] } := by
          simp [update, tickReturn, ht, hthrew]
        refine ⟨?_, hkeep (by rw [heq]; rfl) fun m _ => by rw [heq]; rfl⟩
        rw [heq]
        simp [TimersPc.uses]
      · exact absurd hg not_false
    · exact absurd hg not_false
  | release =>
    refine ⟨?_, hkeep rfl fun _ _ => rfl⟩
    intro k hk
    simp only [update, uses_nextPc] at hk
    exact hk

theorem owner_of_reachable (h : (pacedLts cfg made).ReachableWhen KeepsTicks s) : OwnerInv s := by
  refine h.induct ?_ ?_
  · rintro s rfl
    exact OwnerInv.initial
  · intro l s hr hg hok ho
    have hr' := hr.next hg hok
    exact ho.step (gate_of_reachable hr) (gate_of_reachable hr') (thread_of_reachable hr) hg hok

/-! ## The messages and their clones -/

/-- The clones that `lastOwned` names are destroyed. -/
theorem not_owned_of_lastOwned (cfg : Config) {k : ℕ} (hk : k ∈ lastOwned l s) :
    ¬ (update cfg l s).owned k ∧ (update cfg l s).thread = s.thread ∧
      (update cfg l s).source = s.source := by
  cases l with
  | disconnectReset j =>
    simp only [lastOwned, List.mem_filter, List.mem_singleton, decide_eq_true_eq] at hk
    obtain ⟨rfl, hrest⟩ := hk
    refine ⟨?_, rfl, rfl⟩
    rintro (hlist | hhandle | hsnap)
    · exact hrest (Or.inl hlist)
    · simp [update] at hhandle
    · exact hrest (Or.inr hsnap)
  | clear σ =>
    simp only [lastOwned, List.mem_filter, decide_eq_true_eq] at hk
    obtain ⟨-, rfl, hrest⟩ := hk
    refine ⟨?_, rfl, rfl⟩
    rintro (hlist | hother)
    · simp [update, clear, listed] at hlist
    · exact hrest hother
  | release =>
    simp only [lastOwned, List.mem_filter, decide_eq_true_eq] at hk
    exact ⟨hk.2, rfl, rfl⟩
  | tickReturn =>
    simp only [lastOwned] at hk
    split at hk
    · rename_i k' i rest ht
      split at hk
      · rename_i m hthrew
        simp only [List.mem_filter, decide_eq_true_eq] at hk
        -- the exception leaves the pass, and its snapshots with it
        have heq : update cfg .tickReturn s =
            { s.letGo [i] .call with timers := .idle, snapshots := [] } := by
          simp [update, tickReturn, ht, hthrew]
        rw [heq]
        refine ⟨?_, rfl, rfl⟩
        rintro (hlist | hhandle | ⟨ds, hds, -⟩)
        · exact hk.2 (Or.inl hlist)
        · exact hk.2 (Or.inr hhandle)
        · cases hds
      · cases hk
    · cases hk
  | _ => cases hk

/-- A step that `KeepsTicks` excludes leaves a message without its clone. -/
theorem destroyed_of_not_keepsTicks (cfg : Config) (hnot : ¬ KeepsTicks l s) :
    ∃ m ∈ (update cfg l s).thread.outstanding, ∃ k, (update cfg l s).source m.id = some k ∧
      ¬ (update cfg l s).owned k := by
  unfold KeepsTicks at hnot
  push Not at hnot
  obtain ⟨k, hk, hne⟩ := hnot
  obtain ⟨m, hm⟩ := List.exists_mem_of_ne_nil _ hne
  obtain ⟨hout, hsrc⟩ := List.mem_filter.mp hm
  obtain ⟨hdead, hthread, hsource⟩ := not_owned_of_lastOwned cfg hk
  rw [hthread, hsource]
  exact ⟨m, hout, k, of_decide_eq_true hsrc, hdead⟩

/-- **A tick has its clone.** In a run in which no step destroys a clone with an
outstanding message, every message that is queued or executed refers to a clone
that has an owner. -/
theorem tick_refers_to_owned (h : (pacedLts cfg made).ReachableWhen KeepsTicks s)
    {m : DelegateMsg} (hm : m ∈ s.thread.outstanding) {k : ℕ} (hk : s.source m.id = some k) :
    s.owned k :=
  (owner_of_reachable h).outstanding m hm k hk

/-- A tick is queued, its snapshot is released, and the worker executes it. -/
def tickRun : List PacedLabel :=
  connectRun ++ expireRun 0 1 ++ dispatchRun 0 ++ [PacedLabel.release, .thread (.processLoop 0),
    .thread (.processTake 0), .thread (.processSwitch 0 (.delegate (tickMsg 0)))]

theorem tick_refers_to_owned_run :
    ∃ s, (pacedLts ⟨100, .fault⟩ fun _ => ⟨0, false, .initial⟩).ReachableWhen KeepsTicks s ∧
      tickMsg 0 ∈ s.thread.running ∧ s.owned 0 := by
  obtain ⟨s, hr, hp⟩ := (pacedLts ⟨100, .fault⟩ fun _ => ⟨0, false, .initial⟩).execWhen_reachable
    KeepsTicks rfl tickRun (fun s => tickMsg 0 ∈ s.thread.running ∧ s.source 0 = some 0)
    (by decide)
  obtain ⟨hrun, hsrc⟩ : _ ∧ _ := of_decide_eq_true hp
  exact ⟨s, hr, hrun, tick_refers_to_owned hr (List.mem_append_right _ hrun) hsrc⟩

/-- A tick is queued, `Stop` disconnects the timer, and `ExitThread` drains the
queue. -/
def stopRun : List PacedLabel :=
  connectRun ++ expireRun 0 1 ++ dispatchRun 0 ++ [PacedLabel.release, .disconnectImpl 0,
    .disconnectReset 0, .thread (.exitThread (.client 0)), .thread (.exitPush (.client 0)),
    .thread (.processLoop 0), .thread (.processTake 0),
    .thread (.processSwitch 0 (.delegate (tickMsg 0)))]

/-- The tick runs on a clone that has been destroyed. -/
theorem tick_runs_on_destroyed :
    ∃ s, (pacedLts ⟨100, .fault⟩ fun _ => ⟨0, false, .initial⟩).Reachable s ∧
      tickMsg 0 ∈ s.thread.running ∧ s.source 0 = some 0 ∧ ¬ s.owned 0 := by
  obtain ⟨s, hr, hp⟩ := (pacedLts ⟨100, .fault⟩ fun _ => ⟨0, false, .initial⟩).execWhen_reachable
    Lts.always rfl stopRun
    (fun s => tickMsg 0 ∈ s.thread.running ∧ s.source 0 = some 0 ∧ ¬ s.owned 0) (by decide)
  exact ⟨s, hr, of_decide_eq_true hp⟩

end PacedSys

end AsyncSqlite
