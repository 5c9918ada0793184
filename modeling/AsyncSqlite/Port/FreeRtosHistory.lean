import AsyncSqlite.Port.FreeRtos
import AsyncSqlite.Port.Ledger

/-!
# AsyncSqlite.Port.FreeRtosHistory — the life and the accounts of a FreeRTOS `Thread`

`LifeInv` says which task and semaphore belong to which point of
`CreateThread` and `ExitThread`; `HistoryInv` keeps the accounts (`Ledger`).
-/

namespace AsyncSqlite

namespace FreeRtosThread

variable {cfg : Config} {l : RtosLabel} {s s' : FreeRtosThread}

/-! ## The life of the task -/

/-- What holds at each point of `CreateThread` and `ExitThread`. -/
def ControlInv (s : FreeRtosThread) : Prop :=
  match s.control with
  | .idle => s.queue.isSome = s.thread
  | .createTask => s.thread = false ∧ s.queue.isSome = true
  | .exitSend | .exitTake => s.thread = true ∧ s.queue.isSome = true ∧ s.exit = true
  | .exitDrain => s.task = .deleted ∧ s.exitSem = some false

structure LifeInv (s : FreeRtosThread) : Prop where
  stopped : s.thread = false → s.task = .notCreated ∨ s.task = .deleted
  given : s.exitSem = some true → s.task = .deleted ∧ s.thread = true
  control : ControlInv s

theorem LifeInv.initial : LifeInv initial :=
  ⟨fun _ => Or.inl rfl, by simp [FreeRtosThread.initial], rfl⟩

theorem TaskMove.alive {pc : RtosPc} (h : TaskMove s pc) :
    s.task ≠ .notCreated ∧ s.task ≠ .deleted ∧ pc ≠ .notCreated ∧ pc ≠ .deleted := by
  cases h <;> simp_all

/-- A task that runs goes on without touching anything of its life. -/
theorem LifeInv.run (h : LifeInv s) (halive : s.task ≠ .notCreated ∧ s.task ≠ .deleted)
    (hthread : s'.thread = s.thread) (hsem : s'.exitSem = s.exitSem) (hexit : s'.exit = s.exit)
    (hqueue : s'.queue.isSome = s.queue.isSome) (hcontrol : s'.control = s.control) :
    LifeInv s' := by
  have hth : s.thread = true := by
    by_contra hfalse
    rcases h.stopped (by simpa using hfalse) with htask | htask
    · exact halive.1 htask
    · exact halive.2 htask
  constructor
  · intro hfalse
    rw [hthread, hth] at hfalse
    cases hfalse
  · intro hgiven
    rw [hsem] at hgiven
    exact absurd (h.given hgiven).1 halive.2
  · have hc := h.control
    unfold ControlInv at hc ⊢
    rw [hcontrol]
    cases hcon : s.control with
    | idle => simpa only [hcon, hqueue, hthread] using hc
    | createTask => simpa only [hcon, hqueue, hthread] using hc
    | exitSend | exitTake => simpa only [hcon, hqueue, hthread, hexit] using hc
    | exitDrain =>
      simp only [hcon] at hc
      exact absurd hc.1 halive.2

theorem LifeInv.step (h : Effect cfg l s s') (hi : LifeInv s) : LifeInv s' := by
  have hc := hi.control
  cases h with
  | stutter => exact hi
  | create hcon hth =>
    refine ⟨hi.stopped, ?_, ⟨hth, rfl⟩⟩
    intro hgiven
    have hsome : s.exitSem = some true := by
      cases hsem : s.exitSem with
      | none => simp [hsem] at hgiven
      | some b => simpa [hsem] using hgiven
    rw [(hi.given hsome).2] at hth
    cases hth
  | task hcon =>
    simp only [ControlInv, hcon] at hc
    refine ⟨by simp [createTask], ?_, ?_⟩
    · intro hgiven
      have hth := (hi.given hgiven).2
      rw [hc.1] at hth
      cases hth
    · simpa [ControlInv, createTask] using hc.2
  | beginExit q hl hcon hq =>
    simp only [ControlInv, hcon, hq] at hc
    exact ⟨hi.stopped, hi.given, ⟨hc.symm, by simp [hq], rfl⟩⟩
  | sendExit hcon =>
    simp only [ControlInv, hcon] at hc
    refine ⟨hi.stopped, hi.given, ⟨hc.1, ?_, hc.2.2⟩⟩
    simpa [exitSend] using hc.2.1
  | takeSem hcon hsem =>
    refine ⟨hi.stopped, by simp, ⟨(hi.given hsem).1, rfl⟩⟩
  | drain hcon =>
    simp only [ControlInv, hcon] at hc
    refine ⟨fun _ => Or.inr hc.1, ?_, rfl⟩
    intro hgiven
    have hsem : s.exitSem = some true := hgiven
    rw [hc.2] at hsem
    cases hsem
  | dispatch m pc => exact ⟨hi.stopped, hi.given, hc⟩
  | accept m q hex hm _ hq =>
    refine ⟨hi.stopped, hi.given, ?_⟩
    have hsome : (s.accept m).queue.isSome = s.queue.isSome := by simp [FreeRtosThread.accept]
    unfold ControlInv at hc ⊢
    rw [hsome]
    exact hc
  | move pc hm => exact hi.run ⟨hm.alive.1, hm.alive.2.1⟩ rfl rfl rfl rfl rfl
  | pop m rest htask hq => exact hi.run (by simp [htask]) rfl rfl rfl (by simp [hq]) rfl
  | invoke m d htask hd => exact hi.run (by simp [htask]) rfl rfl rfl rfl rfl
  | give htask =>
    -- the task still runs, so the thread was created and no drain is in progress
    have hth : s.thread = true := by
      by_contra hfalse
      rcases hi.stopped (by simpa using hfalse) with ht | ht
      · rw [htask] at ht
        cases ht
      · rw [htask] at ht
        cases ht
    refine ⟨fun _ => Or.inr rfl, fun _ => ⟨rfl, hth⟩, ?_⟩
    unfold ControlInv at hc ⊢
    cases hcon : s.control with
    | exitDrain =>
      simp only [hcon] at hc
      rw [htask] at hc
      cases hc.1
    | _ => simpa only [hcon] using hc

theorem life_of_reachable {ok : RtosLabel → FreeRtosThread → Prop}
    (hr : (freeRtosLts cfg).ReachableWhen ok s) : LifeInv s := by
  refine hr.induct (P := LifeInv) ?_ ?_
  · rintro s rfl
    exact .initial
  · intro l s _ hg _ hi
    exact hi.step (step_effect cfg hg)

/-! ## The accounts -/

/-- The delegate message that the task holds and has not invoked. -/
def hand (s : FreeRtosThread) : List DelegateMsg :=
  match s.task with
  | .got m => m.target.toList
  | _ => []

/-- The accounts of a state. -/
abbrev Accounts (s : FreeRtosThread) : Prop :=
  Ledger s.dispatch s.accepted (s.removed.map Prod.fst) s.queued s.popped s.invoked s.hand

structure HistoryInv (s : FreeRtosThread) : Prop where
  shape : ∀ m ∈ s.messages, m = .exit ∨ ∃ d, m = .delegate d
  ledger : Accounts s

theorem HistoryInv.initial : HistoryInv initial :=
  ⟨by simp [messages, FreeRtosThread.initial], .nil _⟩

theorem queued_send (m : DelegateMsg) (q : List ThreadMsg) :
    (send m q).filterMap (·.data) =
      if m.priority = .high then m :: q.filterMap (·.data) else q.filterMap (·.data) ++ [m] := by
  unfold send
  split <;> simp

theorem messages_of_queue {q : List ThreadMsg} (hq : s.queue = some q) : s.messages = q := by
  simp [messages, hq]

theorem messages_accept (m : DelegateMsg) {q : List ThreadMsg} (hq : s.queue = some q) :
    (s.accept m).messages = send m q := by
  simp [messages, accept, hq]

theorem queued_accept (m : DelegateMsg) {q : List ThreadMsg} (hq : s.queue = some q) :
    (s.accept m).queued = if m.priority = .high then m :: s.queued else s.queued ++ [m] := by
  unfold queued
  rw [messages_accept m hq, messages_of_queue hq, queued_send]

theorem queued_pop {m : ThreadMsg} {rest : List ThreadMsg} (hq : s.queue = some (m :: rest)) :
    s.queued = m.data.toList ++ rest.filterMap (·.data) := by
  unfold queued
  rw [messages_of_queue hq]
  cases hd : m.data <;> simp [hd]

theorem queued_exitSend (s : FreeRtosThread) : s.exitSend.queued = s.queued := by
  cases hq : s.queue <;> simp [queued, messages, exitSend, hq]

theorem popped_exitDrain (s : FreeRtosThread) : s.exitDrain.popped = s.popped := by
  simp [popped, exitDrain, List.filter_map, Function.comp_def]

theorem removed_exitDrain (s : FreeRtosThread) :
    s.exitDrain.removed.map Prod.fst = s.removed.map Prod.fst ++ s.queued := by
  simp [exitDrain, Function.comp_def]

/-- A call in front of its return has pushed nothing. -/
theorem HistoryInv.fresh (hi : HistoryInv s) {m : DelegateMsg}
    (hm : s.dispatch m.id = .idle ∨ s.dispatch m.id = .waiting m) :
    ∀ x ∈ s.accepted, x.id ≠ m.id := by
  rcases hm with hm | hm
  · exact hi.ledger.fresh hm (by simp)
  · exact hi.ledger.fresh hm (by simp)

theorem HistoryInv.accept (hi : HistoryInv s) {m : DelegateMsg} {q : List ThreadMsg}
    (hm : s.dispatch m.id = .idle ∨ s.dispatch m.id = .waiting m) (hq : s.queue = some q) :
    HistoryInv (s.accept m) := by
  constructor
  · intro x hx
    rw [messages_accept m hq] at hx
    have hold := hi.shape x
    rw [messages_of_queue hq] at hold
    unfold send at hx
    split at hx
    · rcases List.mem_cons.mp hx with rfl | hx
      · exact Or.inr ⟨m, rfl⟩
      · exact hold hx
    · rcases List.mem_append.mp hx with hx | hx
      · exact hold hx
      · exact Or.inr ⟨m, List.mem_singleton.mp hx⟩
  · have hqueued : (s.accept m).queued.Perm (s.queued ++ [m]) := by
      rw [queued_accept m hq]
      split
      · exact (List.perm_append_singleton m _).symm
      · exact .refl _
    exact hi.ledger.accept (hi.fresh hm) hqueued

/-- A message that leaves the queue at the front. -/
theorem HistoryInv.pop (hi : HistoryInv s) {m : ThreadMsg} {rest : List ThreadMsg}
    (htask : s.task = .receive) (hq : s.queue = some (m :: rest)) :
    HistoryInv { s with
      task := .got m
      queue := some rest
      removed := s.removed ++ m.data.toList.map (·, .popped) } := by
  have hmsgs := messages_of_queue hq
  constructor
  · intro x hx
    refine hi.shape x ?_
    rw [hmsgs]
    exact List.mem_cons_of_mem m hx
  · have hhand : s.hand = [] := by simp [hand, htask]
    have hpop := hi.ledger.pop (hi.shape m (by simp [hmsgs])) hhand (queued_pop hq)
    have hremoved : (s.removed ++ m.data.toList.map (·, Removal.popped)).map Prod.fst =
        s.removed.map Prod.fst ++ m.data.toList := by simp [Function.comp_def]
    have hpopped : ((s.removed ++ m.data.toList.map (·, Removal.popped)).filter
        (·.2 = .popped)).map Prod.fst = s.popped ++ m.data.toList := by
      cases m.data <;> simp [FreeRtosThread.popped]
    rw [← hremoved, ← hpopped] at hpop
    exact hpop

theorem TaskMove.hand {pc : RtosPc} (h : TaskMove s pc) :
    ({ s with task := pc } : FreeRtosThread).hand = s.hand := by
  cases h <;> simp_all [FreeRtosThread.hand]

/-- The exit message is no delegate message, so it is on no account. -/
theorem HistoryInv.exitSend (hi : HistoryInv s) : HistoryInv s.exitSend := by
  constructor
  · intro m hm
    cases hqueue : s.queue with
    | none => simp [messages, FreeRtosThread.exitSend, hqueue] at hm
    | some q =>
      simp only [messages, FreeRtosThread.exitSend, hqueue, Option.map_some,
        Option.getD_some] at hm
      rcases List.mem_append.mp hm with hm | hm
      · refine hi.shape m ?_
        rwa [messages_of_queue hqueue]
      · exact Or.inl (List.mem_singleton.mp hm)
  · unfold Accounts
    rw [queued_exitSend]
    exact hi.ledger

theorem HistoryInv.step (h : Effect cfg l s s') (hl : LifeInv s) (hi : HistoryInv s) :
    HistoryInv s' := by
  cases h with
  | stutter => exact hi
  | create | beginExit | takeSem => exact ⟨hi.shape, hi.ledger⟩
  | task hcon =>
    -- the task that the new one replaces never ran, or it is deleted
    have hc := hl.control
    simp only [ControlInv, hcon] at hc
    have hhand : s.createTask.hand = s.hand := by
      rcases hl.stopped hc.1 with ht | ht
      · simp [hand, createTask, ht]
      · simp [hand, createTask, ht]
    refine ⟨hi.shape, ?_⟩
    unfold Accounts
    rw [hhand]
    exact hi.ledger
  | sendExit hcon => exact hi.exitSend
  | drain hcon =>
    -- what the drain takes off the queue is removed, but not popped by the task
    refine ⟨by simp [messages, exitDrain], ?_⟩
    unfold Accounts
    rw [popped_exitDrain, removed_exitDrain]
    exact hi.ledger.discard
  | dispatch m pc hex hm => exact ⟨hi.shape, hi.ledger.move (hi.fresh hm) pc⟩
  | accept m q hex hlab hm hq => exact hi.accept hm hq
  | move pc hm =>
    refine ⟨hi.shape, ?_⟩
    unfold Accounts
    rw [hm.hand]
    exact hi.ledger
  | pop m rest htask hq => exact hi.pop htask hq
  | invoke m d htask hd =>
    have hhand : s.hand = [d] := by simp [hand, htask, hd]
    exact ⟨hi.shape, hi.ledger.invoke hhand⟩
  | give htask =>
    refine ⟨hi.shape, ?_⟩
    have hhand : s.hand = [] := by simp [hand, htask]
    have hledger := hi.ledger
    unfold Accounts at hledger ⊢
    rw [hhand] at hledger
    exact hledger

theorem history_of_reachable {ok : RtosLabel → FreeRtosThread → Prop}
    (hr : (freeRtosLts cfg).ReachableWhen ok s) : HistoryInv s := by
  refine hr.induct (P := HistoryInv) ?_ ?_
  · rintro s rfl
    exact .initial
  · intro l s hr hg _ hi
    exact hi.step (step_effect cfg hg) (life_of_reachable hr)

end FreeRtosThread

end AsyncSqlite
