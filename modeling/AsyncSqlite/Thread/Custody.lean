import AsyncSqlite.Thread.Drain
import AsyncSqlite.Thread.Handler

/-!
# AsyncSqlite.Thread.Custody — where an accepted message is

Between its push and its end a delegate message waits (`pending`: in a queue, or
popped and not invoked) or is executed (`running`). `event` names what a step
does to messages, and `custody_step` says that nothing else happens to them.
-/

namespace AsyncSqlite

namespace ThreadState

variable {cfg : Config} {l : ThreadLabel} {s s' : ThreadState}

/-- Messages that are queued or in the worker's hand. -/
def pending (s : ThreadState) : List DelegateMsg := s.queued .high ++ s.queued .normal ++ s.hand

/-- The message that a worker invokes. -/
def inInvoke : WorkerPc → List DelegateMsg
  | .invoking m => [m]
  | _ => []

/-- Messages that are executed. -/
def running (s : ThreadState) : List DelegateMsg :=
  (List.range s.spawned).flatMap fun w => inInvoke (s.worker w).pc

/-- Messages that are queued or executed. -/
def outstanding (s : ThreadState) : List DelegateMsg := s.pending ++ s.running

theorem mem_inInvoke {pc : WorkerPc} {m : DelegateMsg} : m ∈ inInvoke pc ↔ pc = .invoking m := by
  cases pc <;> simp [inInvoke, eq_comm]

theorem mem_running (hl : LifeInv s) {m : DelegateMsg} :
    m ∈ s.running ↔ ∃ w, (s.worker w).pc = .invoking m := by
  simp only [running, List.mem_flatMap, List.mem_range, mem_inInvoke]
  constructor
  · rintro ⟨w, -, hw⟩
    exact ⟨w, hw⟩
  · rintro ⟨w, hw⟩
    refine ⟨w, ?_, hw⟩
    by_contra hle
    rw [hl.fresh w (by omega)] at hw
    cases hw

/-! ## The histories decide -/

theorem cleared_sublist (s : ThreadState) : s.cleared.Sublist (s.removed.map Prod.fst) :=
  List.filter_sublist.map Prod.fst

theorem cleared_exitReset (s : ThreadState) :
    s.exitReset.cleared = s.cleared ++ (s.queued .high ++ s.queued .normal) := by
  rw [ThreadState.cleared, exitReset, List.filter_append, List.map_append, cleared_tag]
  rfl

theorem mem_pushed_of_pending (hi : HistoryInv s) {m : DelegateMsg} (hm : m ∈ s.pending) :
    m ∈ s.pushed := by
  rcases List.mem_append.mp hm with hm | hm
  · rcases List.mem_append.mp hm with hm | hm
    · exact (hi.fifo.mem_of_queue hm).1
    · exact (hi.fifo.mem_of_queue hm).1
  · exact hi.mem_pushed_of_hand hm

/-- What was popped was not cleared. -/
theorem not_cleared_of_popped (hi : HistoryInv s) {m : DelegateMsg} (hm : m ∈ s.popped) :
    m ∉ s.cleared := by
  intro hc
  have hnodup : ((s.removed.map Prod.fst).map (·.id)).Nodup :=
    ((List.sublist_append_left _ _).map _).nodup hi.ids_nodup
  simp only [ThreadState.popped, ThreadState.cleared, List.mem_map, List.mem_filter,
    decide_eq_true_eq] at hm hc
  rcases hm with ⟨⟨x, r⟩, ⟨hx, hpop⟩, rfl⟩
  rcases hc with ⟨⟨y, q⟩, ⟨hy, hclear⟩, heq⟩
  obtain rfl : y = x := heq
  obtain rfl : r = .popped := hpop
  obtain rfl : q = .cleared := hclear
  rw [List.map_map] at hnodup
  cases List.inj_on_of_nodup_map hnodup hx hy rfl

/-- A message with an invoker is pending from its push until it is invoked or
cleared. -/
theorem mem_pending (hi : HistoryInv s) {m : DelegateMsg} (hinv : m.invoker = true) :
    m ∈ s.pending ↔ m ∈ s.pushed ∧ m ∉ s.invoked ∧ m ∉ s.cleared := by
  constructor
  · intro hm
    refine ⟨mem_pushed_of_pending hi hm, ?_⟩
    rcases List.mem_append.mp hm with hq | hh
    · -- a queued message has not left the queues
      have hdisj : m ∉ s.removed.map Prod.fst := by
        intro hr
        have hnodup := hi.ids_nodup
        rw [List.map_append] at hnodup
        exact List.disjoint_of_nodup_append hnodup (List.mem_map_of_mem hr)
          (List.mem_map_of_mem hq)
      exact ⟨fun h => hdisj (hi.invoked_sublist.subset h),
        fun h => hdisj (s.cleared_sublist.subset h)⟩
    · refine ⟨?_, not_cleared_of_popped hi (hi.popped_of_hand hh)⟩
      intro hmem
      exact hi.not_invoked_of_hand hh (List.mem_map_of_mem hmem)
  · rintro ⟨hp, hninv, hnclear⟩
    simp only [pending, List.mem_append]
    rcases hi.cases_of_pushed hp hinv with hq | hh | h | h
    · left
      cases hpri : m.priority with
      | high => exact Or.inl (hpri ▸ hq)
      | normal => exact Or.inr (hpri ▸ hq)
    · exact Or.inr hh
    · exact absurd h hninv
    · exact absurd h hnclear

/-- No message is in two places. -/
theorem outstanding_nodup (hl : LifeInv s) (hi : HistoryInv s) (hh : HandlerInv s) :
    s.outstanding.Nodup := by
  have hids := List.Nodup.of_map _ hi.ids_nodup
  have hhand : (s.invoked ++ s.hand).Nodup := by
    rw [← hi.popped]
    exact (List.filter_sublist.trans s.popped_sublist).nodup (List.nodup_append.mp hids).1
  have hrun : ∀ m ∈ s.running, m ∈ s.invoked := by
    intro m hm
    rcases (mem_running hl).mp hm with ⟨w, hw⟩
    exact hh.mem w m hw
  have hsub : ∀ m ∈ s.invoked ++ s.hand, m ∈ s.removed.map Prod.fst := by
    intro m hm
    rw [← hi.popped] at hm
    exact s.popped_sublist.subset (List.mem_filter.mp hm).1
  rw [outstanding, pending, List.nodup_append, List.nodup_append]
  refine ⟨⟨(List.nodup_append.mp hids).2.1, (List.nodup_append.mp hhand).2.1, ?_⟩, ?_, ?_⟩
  · intro a ha b hb hab
    subst hab
    exact List.disjoint_of_nodup_append hids (hsub a (List.mem_append_right _ hb)) ha
  · -- two workers do not run the same message
    rw [running, List.nodup_flatMap]
    refine ⟨fun w _ => ?_, ?_⟩
    · cases (s.worker w).pc <;> simp [inInvoke]
    · refine (List.nodup_range).imp fun {v w} hne m hv hw => ?_
      rw [mem_inInvoke] at hv hw
      exact hne (hh.unique v w m m hv hw rfl)
  · intro a ha b hb hab
    subst hab
    rcases List.mem_append.mp ha with hq | hhd
    · exact List.disjoint_of_nodup_append hids
        (hsub a (List.mem_append_left _ (hrun a hb))) hq
    · exact List.disjoint_of_nodup_append hhand (hrun a hb) hhd

/-! ## What a step does to the messages -/

/-- What a step does to the delegate messages with an invoker. -/
inductive CustodyEvent where
  | none
  /-- `push_back` -/
  | post (m : DelegateMsg)
  /-- `Invoke` is entered -/
  | enter (m : DelegateMsg)
  /-- `Invoke` has returned -/
  | leave (m : DelegateMsg)
  /-- `Invoke` was left by an exception -/
  | unwind (m : DelegateMsg)
  /-- `ExitThread` destroys what is queued -/
  | clear (ms : List DelegateMsg)

/-- The event of a step. -/
def event (cfg : Config) (l : ThreadLabel) (s : ThreadState) : CustodyEvent :=
  match l with
  | .dispatchLocked m | .dispatchWake m | .dispatchTimeout m =>
    if (update cfg l s).dispatch m.id = .returned m true then .post m else .none
  | .processSwitch _ x =>
    match x.target with
    | some m => .enter m
    | none => .none
  | .invokeReturn _ m => .leave m
  | .invokeThrow _ m => .unwind m
  | .exitReset _ => .clear (s.queued .high ++ s.queued .normal)
  | _ => .none

/-- Where `m` is behind an event, from where it is in front of it. -/
def CustodyEvent.Moves (e : CustodyEvent) (s s' : ThreadState) (m : DelegateMsg) : Prop :=
  match e with
  | .none => (m ∈ s'.pending ↔ m ∈ s.pending) ∧ (m ∈ s'.running ↔ m ∈ s.running)
  | .post x => (m ∈ s'.pending ↔ m ∈ s.pending ∨ m = x) ∧ (m ∈ s'.running ↔ m ∈ s.running)
  | .enter x =>
    (m ∈ s'.pending ↔ m ∈ s.pending ∧ m ≠ x) ∧ (m ∈ s'.running ↔ m ∈ s.running ∨ m = x)
  | .leave x | .unwind x =>
    (m ∈ s'.pending ↔ m ∈ s.pending) ∧ (m ∈ s'.running ↔ m ∈ s.running ∧ m ≠ x)
  | .clear xs =>
    (m ∈ s'.pending ↔ m ∈ s.pending ∧ m ∉ xs) ∧ (m ∈ s'.running ↔ m ∈ s.running)

/-- What is known of a reachable state. -/
structure Sound (s : ThreadState) : Prop where
  life : Life s
  history : HistoryInv s
  handler : HandlerInv s

theorem sound_of_reachable {ok : ThreadLabel → ThreadState → Prop}
    (h : (threadLts cfg).ReachableWhen ok s) : Sound s :=
  ⟨life_of_reachable h, history_of_reachable h, handler_of_reachable h⟩

/-- What the event of a step finds. -/
def CustodyEvent.Enabled (e : CustodyEvent) (s : ThreadState) : Prop :=
  match e with
  | .none => True
  | .post x => (s.dispatch x.id).inFlight = true ∧ (s.dispatch x.id).message = some x
  | .enter x => x ∈ s.pending
  | .leave x | .unwind x => x ∈ s.running
  | .clear xs => ∀ x ∈ xs, x ∈ s.pending

theorem mem_pushed_of_outstanding (hs : Sound s) {m : DelegateMsg} (hm : m ∈ s.outstanding) :
    m ∈ s.pushed := by
  rcases List.mem_append.mp hm with hp | hr
  · exact mem_pushed_of_pending hs.history hp
  · obtain ⟨w, hw⟩ := (mem_running hs.life.workers).mp hr
    exact hs.history.mem_pushed_of_invoked (hs.handler.mem w m hw)

theorem event_enabled (cfg : Config) (hg : guard l s) (hs : Sound s) :
    (event cfg l s).Enabled s := by
  have hpost : ∀ (p : Prop) [Decidable p] m,
      (s.dispatch m.id = .checked m ∨ s.dispatch m.id = .waiting m) →
      (if p then CustodyEvent.post m else .none).Enabled s := by
    intro p _ m hpc
    split
    · rcases hpc with hpc | hpc <;>
        simp [CustodyEvent.Enabled, hpc, DispatchPc.inFlight, DispatchPc.message]
    · exact trivial
  cases l with
  | dispatchLocked m => exact hpost _ m (Or.inl hg)
  | dispatchWake m => exact hpost _ m (Or.inr hg)
  | dispatchTimeout m => exact hpost _ m (Or.inr hg)
  | processSwitch w x =>
    cases hx : x.target with
    | none => simp [event, hx, CustodyEvent.Enabled]
    | some d =>
      have hhand := hand_of_switch hs.life hg hx
      simp [event, hx, CustodyEvent.Enabled, pending, hhand]
  | invokeReturn w m => exact (mem_running hs.life.workers).mpr ⟨w, hg.1⟩
  | invokeThrow w m => exact (mem_running hs.life.workers).mpr ⟨w, hg.1⟩
  | exitReset t => exact fun x hx => List.mem_append_left _ hx
  | _ => exact trivial

/-- Only the `switch` and the end of `Invoke` change what is executed. -/
theorem running_quiet (h : Effect cfg l s s') (hs : Sound s) (hs' : Sound s')
    (henter : ∀ w x, l ≠ .processSwitch w x) (hleave : ∀ w m, l ≠ .invokeReturn w m)
    (hthrow : ∀ w m, l ≠ .invokeThrow w m) (m : DelegateMsg) :
    m ∈ s'.running ↔ m ∈ s.running := by
  rw [mem_running hs.life.workers, mem_running hs'.life.workers]
  constructor
  · rintro ⟨w, hw⟩
    rcases invoking_of_step h hw with hw | ⟨x, hl, -⟩
    · exact ⟨w, hw⟩
    · exact absurd hl (henter w x)
  · rintro ⟨w, hw⟩
    rcases invoking_kept h hs.life.workers hw with hw | hl | hl
    · exact ⟨w, hw⟩
    · exact absurd hl (hleave w m)
    · exact absurd hl (hthrow w m)

/-- The end of a handler takes its message away. -/
theorem running_end (h : Effect cfg l s s') (hs : Sound s) (hs' : Sound s') {w : ℕ}
    {x : DelegateMsg} (hl : l = .invokeReturn w x ∨ l = .invokeThrow w x)
    (hw : (s.worker w).pc = .invoking x) (hgone : ∀ y, (s'.worker w).pc ≠ .invoking y)
    (m : DelegateMsg) : m ∈ s'.running ↔ m ∈ s.running ∧ m ≠ x := by
  rw [mem_running hs.life.workers, mem_running hs'.life.workers]
  constructor
  · rintro ⟨v, hv⟩
    rcases invoking_of_step h hv with hv' | ⟨y, hl', -⟩
    · refine ⟨⟨v, hv'⟩, ?_⟩
      rintro rfl
      have hvw := hs.handler.unique v w m m hv' hw rfl
      subst hvw
      exact hgone m hv
    · rcases hl with rfl | rfl <;> cases hl'
  · rintro ⟨⟨v, hv⟩, hne⟩
    rcases invoking_kept h hs.life.workers hv with hv' | hl' | hl'
    · exact ⟨v, hv'⟩
    · rcases hl with rfl | rfl
      · cases hl'
        exact absurd rfl hne
      · cases hl'
    · rcases hl with rfl | rfl
      · cases hl'
      · cases hl'
        exact absurd rfl hne

/-- The `switch` begins to execute the message that it was popped for. -/
theorem running_enter (h : Effect cfg l s s') (hs : Sound s) (hs' : Sound s') {w : ℕ}
    {x : ThreadMsg} {d : DelegateMsg} (hl : l = .processSwitch w x) (hx : x.target = some d)
    (hself : (s'.worker w).pc = .invoking d) (m : DelegateMsg) :
    m ∈ s'.running ↔ m ∈ s.running ∨ m = d := by
  rw [mem_running hs.life.workers, mem_running hs'.life.workers]
  constructor
  · rintro ⟨v, hv⟩
    rcases invoking_of_step h hv with hv' | ⟨y, hl', -, hy, -⟩
    · exact Or.inl ⟨v, hv'⟩
    · rw [hl] at hl'
      cases hl'
      rw [hx] at hy
      exact Or.inr (Option.some.inj hy).symm
  · rintro (⟨v, hv⟩ | rfl)
    · rcases invoking_kept h hs.life.workers hv with hv' | hl' | hl'
      · exact ⟨v, hv'⟩
      · rw [hl] at hl'
        cases hl'
      · rw [hl] at hl'
        cases hl'
    · exact ⟨w, hself⟩

/-- A step that leaves the histories of a message alone. -/
theorem pending_quiet (hs : Sound s) (hs' : Sound s') (hp : s'.pushed = s.pushed)
    (hinv : s'.invoked = s.invoked) (hc : s'.cleared = s.cleared) {m : DelegateMsg}
    (hm : m.invoker = true) : m ∈ s'.pending ↔ m ∈ s.pending := by
  rw [mem_pending hs.history hm, mem_pending hs'.history hm, hp, hinv, hc]

/-- Only the critical section of `DispatchDelegate` pushes. -/
theorem pushed_of_label (cfg : Config) (s : ThreadState)
    (hl : ∀ m, l ≠ .dispatchLocked m ∧ l ≠ .dispatchWake m ∧ l ≠ .dispatchTimeout m) :
    (update cfg l s).pushed = s.pushed := by
  cases l with
  | dispatchLocked m => exact absurd rfl (hl m).1
  | dispatchWake m => exact absurd rfl (hl m).2.1
  | dispatchTimeout m => exact absurd rfl (hl m).2.2
  | createThread | exitThread =>
    simp only [update]
    split <;> rfl
  | exitJoin =>
    simp only [update, exitJoin]
    split
    · split <;> rfl
    · rfl
  | processTake w =>
    simp only [update, processTake]
    split <;> rfl
  | processSwitch w x =>
    simp only [update, processSwitch]
    split <;> rfl
  | _ => rfl

/-- The critical section of `DispatchDelegate` pushes its message if it returns
true, and nothing otherwise. -/
theorem post_cases (hg : guard l s) (hs : Sound s) (hs' : Sound (update cfg l s))
    {m : DelegateMsg} (hl : l = .dispatchLocked m ∨ l = .dispatchWake m ∨ l = .dispatchTimeout m) :
    (update cfg l s).dispatch m.id = .returned m true ∧
        (update cfg l s).pushed = s.pushed ++ [m] ∨
      (update cfg l s).dispatch m.id ≠ .returned m true ∧
        (update cfg l s).pushed = s.pushed := by
  have hpc : s.dispatch m.id = .checked m ∨ s.dispatch m.id = .waiting m := by
    rcases hl with rfl | rfl | rfl
    · exact Or.inl hg
    · exact Or.inr hg
    · exact Or.inr hg
  -- only its own call pushes a message, and only once
  have hfresh : m ∉ s.pushed := fun hmem => hs.history.fresh_of_accept hpc m hmem rfl
  have hsame : (update cfg l s).pushed = s.pushed →
      (update cfg l s).dispatch m.id ≠ .returned m true := by
    intro hp hret
    have hmem := (hs'.history.mem_pushed m).mpr hret
    rw [hp] at hmem
    exact hfresh hmem
  have hcases := dispatch_cases cfg s (Or.inr (Or.inr hl))
  rcases hcases with heq | ⟨pc, heq⟩ | heq
  · have hp : (update cfg l s).pushed = s.pushed := by rw [heq]
    exact Or.inr ⟨hsame hp, hp⟩
  · have hp : (update cfg l s).pushed = s.pushed := by
      rw [heq]
      rfl
    exact Or.inr ⟨hsame hp, hp⟩
  · left
    rw [heq]
    exact ⟨by simp [ThreadState.accept, setDispatch], rfl⟩

theorem Moves.quiet {e : CustodyEvent} (he : e = .none) {m : DelegateMsg}
    (hp : m ∈ s'.pending ↔ m ∈ s.pending) (hr : m ∈ s'.running ↔ m ∈ s.running) :
    e.Moves s s' m := by
  subst he
  exact ⟨hp, hr⟩

/-- A step moves messages as its event says. -/
theorem custody_step (hr : (threadLts cfg).Reachable s) (hg : guard l s) {m : DelegateMsg}
    (hm : m.invoker = true) : (event cfg l s).Moves s (update cfg l s) m := by
  have hs := sound_of_reachable hr
  have hs' : Sound (update cfg l s) := sound_of_reachable (hr.next hg trivial)
  have heff := step_effect cfg hg
  have hinv : (∀ w x, l ≠ .processSwitch w x) → (update cfg l s).invoked = s.invoked := by
    intro hne
    rcases invoked_of_step heff with hsame | ⟨w, x, -, hl, -⟩
    · exact hsame
    · exact absurd hl (hne w x)
  have hclear : (∀ t, l ≠ .exitReset t) → (update cfg l s).cleared = s.cleared := by
    intro hne
    rcases cleared_of_step heff with hsame | ⟨t, hl, -⟩
    · exact hsame
    · exact absurd hl (hne t)
  have hpush : ∀ x, l = .dispatchLocked x ∨ l = .dispatchWake x ∨ l = .dispatchTimeout x →
      (if (update cfg l s).dispatch x.id = .returned x true then CustodyEvent.post x
        else .none).Moves s (update cfg l s) m := by
    intro x hl
    have hrun := running_quiet heff hs hs' (by rcases hl with rfl | rfl | rfl <;> simp)
      (by rcases hl with rfl | rfl | rfl <;> simp) (by rcases hl with rfl | rfl | rfl <;> simp) m
    have hinv' := hinv (by rcases hl with rfl | rfl | rfl <;> simp)
    have hclear' := hclear (by rcases hl with rfl | rfl | rfl <;> simp)
    rcases post_cases hg hs hs' hl with ⟨hret, hp⟩ | ⟨hret, hp⟩
    · -- the message is new, so it was neither invoked nor cleared
      rw [if_pos hret]
      refine ⟨?_, hrun⟩
      have hpc : s.dispatch x.id = .checked x ∨ s.dispatch x.id = .waiting x := by
        rcases hl with rfl | rfl | rfl
        · exact Or.inl hg
        · exact Or.inr hg
        · exact Or.inr hg
      have hfresh : x ∉ s.pushed := fun hmem => hs.history.fresh_of_accept hpc x hmem rfl
      rw [mem_pending hs.history hm, mem_pending hs'.history hm, hp, hinv', hclear',
        List.mem_append, List.mem_singleton]
      constructor
      · rintro ⟨hmem | rfl, h⟩
        · exact Or.inl ⟨hmem, h⟩
        · exact Or.inr rfl
      · rintro (⟨hmem, h⟩ | rfl)
        · exact ⟨Or.inl hmem, h⟩
        · refine ⟨Or.inr rfl, fun h => hfresh (hs.history.mem_pushed_of_invoked h), fun h => ?_⟩
          exact hfresh (hs.history.fifo.mem_of_removed (s.cleared_sublist.subset h))
    · rw [if_neg hret]
      exact ⟨pending_quiet hs hs' hp hinv' hclear' hm, hrun⟩
  cases l with
  | dispatchLocked x => exact hpush x (Or.inl rfl)
  | dispatchWake x => exact hpush x (Or.inr (Or.inl rfl))
  | dispatchTimeout x => exact hpush x (Or.inr (Or.inr rfl))
  | processSwitch w x =>
    have hp := pushed_of_label cfg s (l := .processSwitch w x) (by simp)
    have hc := hclear (by simp)
    cases hx : x.target with
    | none =>
      have heq : update cfg (.processSwitch w x) s =
          s.setPc w (if x.id = .exitThread then .finished else .loop) := by
        simp [update, processSwitch, hx]
      refine Moves.quiet (by simp [event, hx]) (pending_quiet hs hs' hp (by rw [heq]; rfl) hc hm) ?_
      rw [mem_running hs.life.workers, mem_running hs'.life.workers]
      constructor
      · rintro ⟨v, hv⟩
        rcases invoking_of_step heff hv with hv' | ⟨y, hl', -, hy, -⟩
        · exact ⟨v, hv'⟩
        · cases hl'
          rw [hx] at hy
          cases hy
      · rintro ⟨v, hv⟩
        rcases invoking_kept heff hs.life.workers hv with hv' | hl' | hl'
        · exact ⟨v, hv'⟩
        · cases hl'
        · cases hl'
    | some d =>
      have heq : update cfg (.processSwitch w x) s = s.invoke w d := by
        simp [update, processSwitch, hx]
      have hev : event cfg (.processSwitch w x) s = .enter d := by simp [event, hx]
      rw [hev]
      refine ⟨?_, running_enter heff hs hs' rfl hx (by simp [heq]) m⟩
      have hinvk : (update cfg (.processSwitch w x) s).invoked = s.invoked ++ [d] := by
        rw [heq]
        rfl
      rw [mem_pending hs.history hm, mem_pending hs'.history hm, hp, hinvk, hc, List.mem_append,
        List.mem_singleton]
      tauto
  | invokeReturn w x =>
    refine ⟨pending_quiet hs hs' rfl (hinv (by simp)) (hclear (by simp)) hm, ?_⟩
    refine running_end heff hs hs' (Or.inl rfl) hg.1 ?_ m
    intro y
    simp only [update, setPc_pc, if_true]
    split <;> simp
  | invokeThrow w x =>
    refine ⟨pending_quiet hs hs' rfl (hinv (by simp)) (hclear (by simp)) hm, ?_⟩
    exact running_end heff hs hs' (Or.inr rfl) hg.1 (by simp [update]) m
  | exitReset t =>
    have hrun := running_quiet heff hs hs' (by simp) (by simp) (by simp) m
    have hc : (update cfg (.exitReset t) s).cleared =
        s.cleared ++ (s.queued .high ++ s.queued .normal) := s.cleared_exitReset
    refine ⟨?_, hrun⟩
    rw [mem_pending hs.history hm, mem_pending hs'.history hm, hc, hinv (by simp),
      List.mem_append (s := s.cleared)]
    show _ ∈ s.pushed ∧ _ ↔ _
    tauto
  | createThread | createClear | createSpawn | createStart w | exitThread t | exitPush t
  | exitJoin t | dispatchDelegate x | dispatchHasValue x | processStart w | processLoop w
  | processTake w | processWake w =>
    refine Moves.quiet rfl ?_ (running_quiet heff hs hs' (by simp) (by simp) (by simp) m)
    exact pending_quiet hs hs' (pushed_of_label cfg s (by simp)) (hinv (by simp))
      (hclear (by simp)) hm

end ThreadState

end AsyncSqlite
