import AsyncSqlite.Sqlite.Order

/-!
# AsyncSqlite.Sqlite.Fifo — results about the order of execution

For any number of clients, in every interleaving of a run in which no program
exits the worker that runs it:

* `fifo_execution`: targets run one at a time, in the order in which their
  messages were queued, and every accepted message reaches its invoker;
* `block_execute_atomic`: what a program calls on the worker runs in place, and
  nothing of another client comes between.
-/

namespace AsyncSqlite

universe u

namespace Sys

variable {V : Type u} {s : Sys V}

/-! ## First in, first out -/

/-- Every message is dispatched with the default priority. -/
theorem normal_of_pushed {ok : SysLabel V → Sys V → Prop} (h : (sysLts V).ReachableWhen ok s)
    {m : DelegateMsg} (hm : m ∈ s.thread.pushed) : m.priority = .normal ∧ m.invoker = true := by
  have hhist := ThreadState.history_of_reachable (thread_of_reachable h)
  have hmsg := (born_of_pushed hhist (dispatch_of_reachable h) hm).1
  rw [hmsg]
  exact ⟨rfl, rfl⟩

/-- The messages left the queue in the order of their pushes. -/
theorem pushed_eq_queued {ok : SysLabel V → Sys V → Prop} (h : (sysLts V).ReachableWhen ok s) :
    s.thread.pushed = s.thread.removed.map Prod.fst ++ s.queuedMessages := by
  have hhist := ThreadState.history_of_reachable (thread_of_reachable h)
  have hnormal : ∀ m ∈ s.thread.pushed, m.priority = .normal := by
    intro m hm
    exact (normal_of_pushed h hm).1
  have hhigh : s.thread.queued .high = [] := hhist.queued_eq_nil hnormal (by decide)
  rw [queuedMessages, hhigh, List.nil_append]
  exact hhist.pushed_eq hnormal

/-- Two started targets of one thread were started in the order of the calls. -/
theorem starts_in_order (h : (sysLts V).ReachableWhen Joined s) {i j : ℕ} (hij : i < j)
    (hcaller : (s.calls i).caller = (s.calls j).caller) (hi : i ∈ s.messageStarts)
    (hj : j ∈ s.messageStarts) : Precedes s.messageStarts i j := by
  have hhist := ThreadState.history_of_reachable (thread_of_reachable h)
  have hturn := turn_of_reachable h
  have hpushed : ∀ k ∈ s.messageStarts, message k ∈ s.thread.pushed := by
    intro k hk
    rcases List.mem_map.mp (hturn.subset hk) with ⟨m, hm, rfl⟩
    have hmem := hhist.mem_pushed_of_invoked hm
    have hmsg := (born_of_pushed hhist (dispatch_of_reachable h) hmem).1
    exact hmsg ▸ hmem
  have hpush := (push_of_reachable h i j hij hcaller (hpushed i hi) (hpushed j hj)).map (·.id)
  rcases precedes_total hi hj (by omega) with hgood | hbad
  · exact hgood
  · -- the starts are in the order of the pushes
    exfalso
    have hinvoked : s.thread.invoked.Sublist s.thread.pushed := by
      rw [pushed_eq_queued h]
      exact hhist.invoked_sublist.trans (List.sublist_append_left _ _)
    have hbad' := (hbad.sublist hturn).sublist (hinvoked.map (·.id))
    exact hpush.asymm hhist.nodup hbad'

/-- Somebody is there to take the queued messages: the worker is not asleep and
has not left, or it is about to be created. -/
theorem worker_awake (h : (sysLts V).ReachableWhen Joined s) {m : DelegateMsg}
    (hm : m ∈ s.queuedMessages) :
    s.thread.control = .createSpawn ∨ ∃ w, s.thread.thread = some (some w) ∧
      (s.thread.worker w).pc ≠ .notStarted ∧ (s.thread.worker w).pc ≠ .asleep ∧
      (s.thread.worker w).pc ≠ .finished := by
  have ht := joined_thread h
  have hlife := ThreadState.life_of_reachable ht
  have hqueue := ThreadState.queue_of_reachable ht
  have hne : ¬ s.thread.Empty := by
    intro hempty
    rw [queuedMessages, ThreadState.queued_of_empty hempty,
      ThreadState.queued_of_empty hempty] at hm
    cases hm
  have hworker : ∀ w, s.thread.thread = some (some w) →
      (s.thread.worker w).pc ≠ .notStarted ∧ (s.thread.worker w).pc ≠ .asleep ∧
      (s.thread.worker w).pc ≠ .finished := by
    intro w hth
    have hspawned := (hlife.workers.handle w hth).1
    refine ⟨hlife.workers.begun w (by omega), ?_, ?_⟩
    · intro hasleep
      exact hne (hqueue.asleep w hasleep).1
    · intro hfin
      exact hne (hqueue.finished w hth hfin).1
  have hcon := hlife.controls
  cases hc : s.thread.control with
  | createSpawn => exact Or.inl rfl
  | idle =>
    simp only [ThreadState.ControlInv, hc] at hcon
    rcases hcon with ⟨hnone, -⟩ | ⟨w, hth, -⟩
    · exact absurd (hqueue.parked (Or.inl hc) hnone) hne
    · exact Or.inr ⟨w, hth, hworker w hth⟩
  | createClear =>
    simp only [ThreadState.ControlInv, hc] at hcon
    exact absurd (hqueue.parked (Or.inr hc) hcon.1) hne
  | createStart w =>
    simp only [ThreadState.ControlInv, hc] at hcon
    exact Or.inr ⟨w, hcon.1, hworker w hcon.1⟩
  | exitPush t | exitJoin t =>
    simp only [ThreadState.ControlInv, hc] at hcon
    rcases hcon with ⟨w, hth, -⟩
    exact Or.inr ⟨w, hth, hworker w hth⟩
  | exitReset t =>
    -- behind a join the queues are empty
    rcases hqueue.leaving t hc with hdrained | ⟨w, -, hse⟩
    · exact absurd hdrained.1 hne
    · rw [(ThreadState.joined_of_reachable ht).noSelfExit w] at hse
      cases hse

/-- **Linearised FIFO execution.** At most one target runs. Targets are started
in the order in which the worker ran the invokers of their messages, which is
the order in which `DispatchDelegate` queued them; in particular the targets of
one client start in the order of its calls. Every queued message leaves the
queue once, for its invoker and for nothing else, and as long as one is queued
the worker does not sleep. -/
theorem fifo_execution (h : (sysLts V).ReachableWhen Joined s) :
    (∀ i j, (s.state i).targetRunning = true → (s.state j).targetRunning = true → i = j) ∧
      s.messageStarts.Sublist (s.thread.invoked.map (·.id)) ∧
      (∀ i j, i < j → (s.calls i).caller = (s.calls j).caller → i ∈ s.messageStarts →
        j ∈ s.messageStarts → Precedes s.messageStarts i j) ∧
      (s.thread.pushed.map (·.id)).Nodup ∧
      s.thread.pushed = s.thread.removed.map Prod.fst ++ s.queuedMessages ∧
      s.thread.removed.map Prod.fst = s.thread.invoked ++ s.thread.hand ∧
      ∀ m ∈ s.queuedMessages,
        s.thread.control = .createSpawn ∨ ∃ w, s.thread.thread = some (some w) ∧
          (s.thread.worker w).pc ≠ .notStarted ∧ (s.thread.worker w).pc ≠ .asleep ∧
          (s.thread.worker w).pc ≠ .finished := by
  have hhist := ThreadState.history_of_reachable (thread_of_reachable h)
  have hcleared := ThreadState.cleared_eq_nil (joined_thread h)
  have hremoved := hhist.removed_eq (fun m hm => (normal_of_pushed h hm).2) hcleared
  exact ⟨fun i j => one_target h, turn_of_reachable h, fun i j hij => starts_in_order h hij,
    hhist.nodup, pushed_eq_queued h, hremoved, fun m hm => worker_awake h hm⟩

instance (ok : ThreadLabel → ThreadState → Prop) [∀ k t, Decidable (ok k t)] (l : SysLabel V)
    (s : Sys V) : Decidable (OnThread ok l s) :=
  match l with
  | .thread k => decidable_of_iff (ok k s.thread) (by simp [OnThread])
  | .asyncInvoke _ _ | .blockExecute _ _ | .asyncInvokeFuture _ | .wait _ _ | .invoke _ _ _
  | .future _ _ | .task _ _ _ | .inPlaceReturn _ _ | .inPlaceThrow _ | .get _ _ | .gotten _ _ =>
    isTrue (by simp [OnThread])

/-- A client dispatches twice; the target of its first call runs while the message
of its second one is queued. -/
def fifoRun : List (SysLabel ℤ) :=
  Run.create ++ [SysLabel.asyncInvokeFuture (.client 0)] ++ Run.dispatch 0 ++
    [SysLabel.future 0 .dispatched, .future 0 .ret, .asyncInvoke (.client 0) true] ++
    Run.dispatch 1 ++
    [SysLabel.wait 1 (.dispatched true)] ++ Run.take 0 ++
    [SysLabel.task 0 0 .run, .task 0 0 (.targetReturn 7), .task 0 0 (.settle (.value 7)),
      .thread (.invokeReturn 0 (message 0))] ++ Run.take 1 ++ Run.start 1

theorem fifo_execution_run :
    ∃ s : Sys ℤ, (sysLts ℤ).ReachableWhen Joined s ∧ Precedes s.messageStarts 0 1 ∧
      s.thread.pushed = s.thread.removed.map Prod.fst ++ s.queuedMessages := by
  obtain ⟨s, hr, hp⟩ := (sysLts ℤ).execWhen_reachable Joined rfl fifoRun
    (fun s => (s.calls 0).caller = (s.calls 1).caller ∧ s.messageStarts = [0, 1]) (by decide)
  rcases of_decide_eq_true hp with ⟨hcaller, hstarts⟩
  have hfifo := fifo_execution hr
  refine ⟨s, hr, ?_, hfifo.2.2.2.2.1⟩
  apply hfifo.2.2.1 0 1 Nat.zero_lt_one hcaller
  · simp [hstarts]
  · simp [hstarts]

/-! ## Block execute -/

/-- A blocking call on the worker runs in place. -/
theorem asyncInvoke_inPlace (h : (sysLts V).ReachableWhen Joined s) {w : ℕ} {forever : Bool}
    (hg : guard (.asyncInvoke (.worker w) forever) s) :
    ∃ m, (s.thread.worker w).pc = .invoking m ∧ s.asyncInvoke (.worker w) forever =
      (s.issue (.worker w) (.inPlace .running)).recordStart m.id s.ncalls := by
  have hlife := ThreadState.life_of_reachable (thread_of_reachable h)
  rcases program_of_mayAct hg with ⟨m, hm, hprog, -⟩
  have hth := hlife.workers.live w (live_of_invoking h hm)
  refine ⟨m, hm, ?_⟩
  -- `GetThreadId` finds the caller itself
  have hid : s.thread.getThreadId = some (some (.worker w)) := by
    simp [ThreadState.getThreadId, hth]
  unfold asyncInvoke
  rw [hid, hprog]
  simp

/-- A function that runs in place has no message. -/
theorem inPlace_not_pushed {ok : SysLabel V → Sys V → Prop} (h : (sysLts V).ReachableWhen ok s)
    {i : ℕ} (hk : (s.state i).kind = .inPlace) :
    s.thread.dispatch i = .idle ∧ message i ∉ s.thread.pushed := by
  have hhist := ThreadState.history_of_reachable (thread_of_reachable h)
  have hlink := dispatch_of_reachable h i
  have hidle : s.thread.dispatch i = .idle := by
    cases hst : s.state i with
    | inPlace pc =>
      rw [hst] at hlink
      cases hd : s.thread.dispatch i with
      | idle => rfl
      | _ => simp [hd, Link, CallState.isDispatching, CallState.isSent, CallState.isThrown] at hlink
    | _ => simp [hst, CallState.kind] at hk
  refine ⟨hidle, fun hmem => ?_⟩
  rw [(hhist.mem_pushed (message i)).mp hmem] at hidle
  cases hidle

/-- **Block execute is atomic.** Every blocking call that a program makes on the
worker, at any depth, runs in place: no message is queued for it, and it does
not wait. The starts of one program, which are that of its target and those of
the functions that it runs in place, form one block in the order of execution. -/
theorem block_execute_atomic (h : (sysLts V).ReachableWhen Joined s) :
    (∀ w forever, guard (.asyncInvoke (.worker w) forever) s →
        ∃ m, (s.thread.worker w).pc = .invoking m ∧ update (.asyncInvoke (.worker w) forever) s =
          (s.issue (.worker w) (.inPlace .running)).recordStart m.id s.ncalls) ∧
      (∀ i w, i < s.ncalls → (s.calls i).caller = .worker w →
        (s.state i).kind = .inPlace ∨ (s.state i).kind = .future) ∧
      (∀ i, (s.state i).kind = .inPlace →
        s.thread.dispatch i = .idle ∧ message i ∉ s.thread.pushed) ∧
      Grouped Start.program s.started ∧
      ∀ x ∈ s.started, (s.state x.call).kind ≠ .inPlace ∧ x.program = x.call ∨
        (s.state x.call).kind = .inPlace ∧ (s.calls x.call).program = some x.program :=
  ⟨fun _ _ hg => asyncInvoke_inPlace h hg, local_of_reachable h,
    fun _ hk => inPlace_not_pushed h hk, block_of_reachable h, (start_of_reachable h).key⟩

/-- A function runs on the thread and calls the helper twice, while the message
of another client is queued. -/
def blockRun : List (SysLabel ℤ) :=
  Run.create ++ [SysLabel.blockExecute 0 true] ++ Run.dispatch 0 ++
    [SysLabel.wait 0 (.dispatched true)] ++
    Run.take 0 ++ Run.start 0 ++ [SysLabel.asyncInvoke (.client 1) true] ++ Run.dispatch 1 ++
    [SysLabel.asyncInvoke (.worker 0) true, .asyncInvoke (.worker 0) true, .inPlaceReturn 3 0,
      .inPlaceReturn 2 0]

theorem block_execute_atomic_run :
    ∃ s : Sys ℤ, (sysLts ℤ).ReachableWhen Joined s ∧ s.started = [⟨0, 0⟩, ⟨0, 2⟩, ⟨0, 3⟩] ∧
      Grouped Start.program s.started ∧ message 3 ∉ s.thread.pushed := by
  obtain ⟨s, hr, hp⟩ := (sysLts ℤ).execWhen_reachable Joined rfl blockRun
    (fun s => s.started = [⟨0, 0⟩, ⟨0, 2⟩, ⟨0, 3⟩] ∧ (s.state 3).kind = .inPlace) (by decide)
  rcases of_decide_eq_true hp with ⟨hstarted, hkind⟩
  have hatomic := block_execute_atomic hr
  exact ⟨s, hr, hstarted, hatomic.2.2.2.1, (hatomic.2.2.1 3 hkind).2⟩

end Sys

end AsyncSqlite
