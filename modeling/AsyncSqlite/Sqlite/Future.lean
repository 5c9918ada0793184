import AsyncSqlite.Sqlite.Held

/-!
# AsyncSqlite.Sqlite.Future — results about future calls

In every interleaving with `CreateThread` and `ExitThread`, on any thread:

* `future_total`: in runs in which no future call reads an empty `m_thread`,
  every such call returns a future, the future is resolved once and for good,
  and none is left unresolved behind an exit;
* `future_refused`: a call before the first `CreateThread` is left by the
  exception of `GetThreadId`.
-/

namespace AsyncSqlite

universe u

namespace Sys

variable {V : Type u} {l : SysLabel V} {s s' : Sys V}

/-! ## Calls that are not left by an exception -/

/-- The two reads of `m_thread` by a future call, in `GetThreadId` and in
`DispatchDelegate`, find it engaged. -/
def Engaged : SysLabel V → Sys V → Prop
  | .asyncInvokeFuture _, s => s.thread.thread ≠ none
  | .thread (.dispatchHasValue m), s => (s.state m.id).kind = .future → s.thread.thread ≠ none
  | _, _ => True

instance (l : SysLabel V) (s : Sys V) : Decidable (Engaged l s) := by
  induction l using SysLabel.casesOn with
  | thread k => induction k using ThreadLabel.casesOn <;> dsimp only [Engaged] <;> infer_instance
  | asyncInvokeFuture t => exact inferInstanceAs (Decidable (_ ≠ _))
  | _ => exact isTrue trivial

/-- No future call is left by an exception, or is about to be. -/
def EngagedInv (s : Sys V) : Prop :=
  ∀ i c, s.state i = .future c → c.caller ≠ .threw ∧ ∀ m, s.thread.dispatch i ≠ .threw m

theorem EngagedInv.step (hr : (sysLts V).Reachable s) (hg : guard l s) (hok : Engaged l s)
    (hi : EngagedInv s) : EngagedInv (update l s) := by
  have hcalls := calls_of_reachable hr
  have heff := sys_effect hg
  intro i c' hc'
  rcases future_born heff hc' with ⟨c, hc⟩ | ⟨rfl, -⟩
  · constructor
    · intro hthrew
      have hcaller := (hi i c hc).1
      rcases future_step heff hcalls hc with hsame | ⟨k, hk, hgk, hnew⟩
      · rw [hsame] at hc'
        cases hc'
        exact hcaller hthrew
      · rw [hnew] at hc'
        cases hc'
        cases k with
        | dispatchThrew =>
          -- the exception comes from `DispatchDelegate`
          rcases hk with hk | hk | ⟨w, hk⟩
          · cases hk
          · rw [hk] at hg
            exact (hi i c hc).2 _ hg.2.1
          · rw [hk] at hg
            cases hg.1
        | dispatched | ret => cases hthrew
        | enter | run | targetReturn _ | targetThrow | settle _ => exact hcaller hthrew
    · intro m hthrew
      have hold := (hi i c hc).2 m
      rcases thread_step heff with hsame | ⟨k, hk, hgk, -, hupd⟩
      · rw [hsame] at hthrew
        exact hold hthrew
      · rw [hupd] at hthrew
        rcases ThreadState.threw_of_step (ThreadState.step_effect sqliteConfig hgk) hthrew with
          hbefore | ⟨rfl, rfl, hnone⟩
        · exact hold hbefore
        · subst hk
          exact hok (by rw [hc]; rfl) hnone
  · -- a call that is issued by this step
    have hlt : s.ncalls < (update l s).ncalls := by
      have hr' : (sysLts V).Reachable (update l s) := hr.next (l := l) hg trivial
      exact (birth_of_reachable hr').lt (by simp [hc'])
    rcases issued_of_step heff hlt (lt_irrefl _) with ⟨-, hth, t, st, -, hcall, hst⟩
    rw [state, hcall] at hc'
    have hc' : st = .future c' := hc'
    subst hc'
    constructor
    · rcases hst with hst | ⟨w, -, hin, -⟩
      · cases hst with
        | futureRefused hl hnone =>
          subst hl
          exact absurd hnone hok
        | notRunning => simp [FutureCall.notRunning]
        | future w => simp [FutureCall.initial]
      · cases hin
    · intro m hthrew
      rw [hth] at hthrew
      have hlink := hcalls.dispatch s.ncalls
      rw [hcalls.unborn rfl, hthrew] at hlink
      rcases hlink.2.1 with hdisp | hthrown
      · cases hdisp
      · exact hthrown

theorem engaged_of_reachable (h : (sysLts V).ReachableWhen Engaged s) : EngagedInv s := by
  refine h.induct ?_ ?_
  · rintro s rfl i c hc
    cases hc
  · intro l s hr hg hok hi
    exact hi.step hr.reachable hg hok

/-! ## Calls that return -/

/-- The steps of future call `i` on its caller's thread. -/
def OwnStep (i : ℕ) : SysLabel V → Sys V → Prop
  | .thread (.dispatchDelegate m), _ | .thread (.dispatchHasValue m), _
  | .thread (.dispatchLocked m), _ => m = message i
  | .future j _, _ => j = i
  | _, _ => False

/-- Its own steps lead the call to its return. -/
def Returns (s : Sys V) (i : ℕ) : Prop :=
  ∃ s', (sysLts V).StepsWhen (OwnStep i) s s' ∧ s'.hasFuture i = true

theorem Returns.step {i : ℕ} (hg : guard l s) (hown : OwnStep i l s) (h : Returns (update l s) i) :
    Returns s i := by
  rcases h with ⟨s', hrun, hfuture⟩
  exact ⟨s', (Lts.StepsWhen.single hg hown).trans hrun, hfuture⟩

theorem returns_of_returning {i : ℕ} {c : FutureCall V} (hc : s.state i = .future c)
    (hpc : c.caller = .returning) : Returns s i := by
  have hg : guard (.future i .ret) s := ⟨rfl, trivial, c, hc, hpc⟩
  apply Returns.step hg rfl
  refine ⟨_, .refl, hasFuture_iff.mpr ⟨c.update .ret, ?_, rfl⟩⟩
  simp [update, hc]

/-- `DispatchDelegate` has returned; the result is ignored. -/
theorem returns_of_returned {i : ℕ} {c : FutureCall V} {ok : Bool} (hc : s.state i = .future c)
    (hpc : c.caller = .dispatching) (hd : s.thread.dispatch i = .returned (message i) ok) :
    Returns s i := by
  have hg : guard (.future i .dispatched) s := ⟨rfl, ⟨ok, hd⟩, c, hc, hpc⟩
  apply Returns.step hg rfl
  apply returns_of_returning (c := c.update .dispatched)
  · simp [update, hc]
  · rfl

/-- Without a queue limit the critical section accepts or rejects. -/
theorem returns_of_checked {i : ℕ} {c : FutureCall V} (hc : s.state i = .future c)
    (hpc : c.caller = .dispatching) (hd : s.thread.dispatch i = .checked (message i)) :
    Returns s i := by
  have hg : guard (.thread (.dispatchLocked (message i))) s := ⟨hd, trivial⟩
  apply Returns.step hg rfl
  have hroom : ¬ ThreadState.full sqliteConfig s.thread := by
    simp [ThreadState.full, sqliteConfig]
  have hret : ∃ ok, (s.thread.dispatchLocked sqliteConfig (message i)).dispatch i =
      .returned (message i) ok := by
    unfold ThreadState.dispatchLocked ThreadState.dispatchPush
    rw [if_neg hroom]
    split
    · exact ⟨false, by simp [ThreadState.setDispatch]⟩
    · exact ⟨true, by simp [ThreadState.accept, ThreadState.setDispatch]⟩
  rcases hret with ⟨ok, hret⟩
  exact returns_of_returned hc hpc hret

theorem returns_of_entered {i : ℕ} {c : FutureCall V} (hc : s.state i = .future c)
    (hpc : c.caller = .dispatching) (hd : s.thread.dispatch i = .entered (message i))
    (hth : s.thread.thread ≠ none) : Returns s i := by
  have hg : guard (.thread (.dispatchHasValue (message i))) s := ⟨hd, trivial⟩
  apply Returns.step hg rfl
  have hc' : (update (.thread (.dispatchHasValue (message i))) s).state i = .future c := hc
  apply returns_of_checked hc' hpc
  simp [update, withThread, ThreadState.update, ThreadState.setDispatch, hth]

/-- A future call returns, or its next step reads an empty `m_thread`. -/
theorem returns_or_unengaged (h : (sysLts V).ReachableWhen Engaged s) {i : ℕ} {c : FutureCall V}
    (hc : s.state i = .future c) :
    Returns s i ∨ s.thread.thread = none ∧
      (s.thread.dispatch i = .entered (message i) ∨
        s.thread.dispatch i = .idle ∧ s.thread.exit = false) := by
  have hengaged := engaged_of_reachable h i c hc
  have hunlimited := ThreadState.unlimited_of_reachable rfl (thread_of_reachable h) i
  have hlink := dispatch_of_reachable h i
  rw [hc] at hlink
  cases hpc : c.caller with
  | threw => exact absurd hpc hengaged.1
  | returned => exact Or.inl ⟨s, .refl, hasFuture_iff.mpr ⟨c, hc, hpc⟩⟩
  | returning => exact Or.inl (returns_of_returning hc hpc)
  | dispatching =>
    cases hd : s.thread.dispatch i with
    | idle =>
      by_cases hexit : s.thread.exit = true
      · -- the unlocked check of `m_exit` rejects
        left
        have hg : guard (.thread (.dispatchDelegate (message i))) s :=
          ⟨hd, rfl, by simp [hc, CallState.isDispatching, hpc]⟩
        apply Returns.step hg rfl
        have hc' : (update (.thread (.dispatchDelegate (message i))) s).state i = .future c := hc
        refine returns_of_returned hc' hpc (?_ : _ = DispatchPc.returned (message i) false)
        simp [update, withThread, ThreadState.update, ThreadState.setDispatch, hexit]
      · by_cases hth : s.thread.thread = none
        · exact Or.inr ⟨hth, Or.inr ⟨rfl, by simpa using hexit⟩⟩
        · left
          have hg : guard (.thread (.dispatchDelegate (message i))) s :=
            ⟨hd, rfl, by simp [hc, CallState.isDispatching, hpc]⟩
          apply Returns.step hg rfl
          have hc' : (update (.thread (.dispatchDelegate (message i))) s).state i = .future c := hc
          apply returns_of_entered hc' hpc
          · simp [update, withThread, ThreadState.update, ThreadState.setDispatch, hexit]
          · exact hth
    | entered m =>
      rw [hd] at hlink
      have hm : m = message i := hlink.1
      subst hm
      by_cases hth : s.thread.thread = none
      · exact Or.inr ⟨hth, Or.inl rfl⟩
      · exact Or.inl (returns_of_entered hc hpc hd hth)
    | checked m =>
      rw [hd] at hlink
      have hm : m = message i := hlink.1
      subst hm
      exact Or.inl (returns_of_checked hc hpc hd)
    | returned m ok =>
      rw [hd] at hlink
      have hm : m = message i := hlink.1
      subst hm
      exact Or.inl (returns_of_returned hc hpc hd)
    | waiting m => exact absurd hd (hunlimited m).1
    | faulted m => exact absurd hd (hunlimited m).2
    | threw m => exact absurd hd (hengaged.2 m)

/-! ## Outcomes -/

/-- What a future holds, by the point of its task: nothing while the task is in
progress, then what the target produced; without a task one of the two
exceptions of the interface. -/
def OutcomeSpec (c : FutureCall V) (res : Option (Outcome V)) : Prop :=
  match c.task with
  | .idle => ∀ o, res = some o → o = .notRunning ∨ o = .brokenPromise
  | .entered | .running | .leaving _ => res = none
  | .done => ∃ o, o.OfTarget ∧ c.produced = [o] ∧ res = some o

theorem outcome_of_reachable {ok : SysLabel V → Sys V → Prop} (h : (sysLts V).ReachableWhen ok s)
    {i : ℕ} {c : FutureCall V} (hc : s.state i = .future c) : OutcomeSpec c (s.result i) := by
  have hlife := ThreadState.life_of_reachable (thread_of_reachable h)
  have hreach := future_reachable h hc
  have hsettle := FutureCall.settle_of_reachable hreach
  -- while the task is in progress a worker holds the message
  have hbusy : (CallState.future c).inInvoke = true → c.settled = [] → s.result i = none := by
    intro hin hset
    rw [result_eq_none_iff hlife hc]
    rcases invoke_of_reachable h i (by rw [hc]; exact hin) with ⟨w, hw⟩
    exact ⟨hset, fun _ => Or.inr ⟨w, message i, by rw [hw]; rfl, rfl⟩⟩
  unfold OutcomeSpec
  unfold FutureCall.SettleInv at hsettle
  cases htask : c.task with
  | idle =>
    rw [htask] at hsettle
    intro o ho
    simp only [result, hc] at ho
    rcases hsettle.2 with hset | hset
    · right
      unfold FutureCall.result at ho
      rw [hset] at ho
      dsimp only at ho
      split at ho
      · simpa using ho.symm
      · cases ho
    · left
      rw [FutureCall.result_of_settled hset] at ho
      simpa using ho.symm
  | entered | running | leaving o =>
    rw [htask] at hsettle
    refine hbusy ?_ hsettle.2
    simp [CallState.inInvoke, CallState.entered, CallState.handlerReturned,
      CallState.handlerThrew, htask]
  | done =>
    rw [htask] at hsettle
    rcases hsettle with ⟨o, hprod, hset⟩
    refine ⟨o, FutureCall.ofTarget_of_reachable hreach o (by simp [hprod]), hprod, ?_⟩
    simp only [result, hc]
    exact FutureCall.result_of_settled hset _

/-- A message that was rejected leaves a broken promise. -/
theorem broken_of_rejected {ok : SysLabel V → Sys V → Prop} (h : (sysLts V).ReachableWhen ok s)
    {i : ℕ} {c : FutureCall V} (hc : s.state i = .future c) (hret : c.caller = .returned)
    {m : DelegateMsg} (hrej : s.thread.dispatch i = .returned m false) :
    s.result i = some .brokenPromise := by
  have hcalls := calls_of_reachable h
  have hno : ¬ s.thread.Holds i := by
    intro hholds
    rcases ThreadState.accepted_of_holds (thread_of_reachable h) hholds with ⟨n, hacc⟩
    rw [hrej] at hacc
    cases hacc
  have hidle : c.task = .idle := by
    have hent := hcalls.not_entered (i := i) fun n hacc => by rw [hrej] at hacc; cases hacc
    rw [hc] at hent
    cases htask : c.task <;> simp_all [CallState.entered]
  have hset : c.settled = [] := by
    have hlink := hcalls.dispatch i
    rw [hrej, hc] at hlink
    exact hlink.2.2 hidle
  have hheld : s.held i = false := by
    by_contra hne
    exact hno ((held_iff hcalls.life).mp (by simpa using hne))
  simp [result, hc, FutureCall.result, hset, hret, hheld]

/-- **Every future call returns a future that is resolved**, in runs in which
no future call reads an empty `m_thread`. The call is not left by an exception,
and its own steps lead it to its return (unless the next one would read an
empty `m_thread`). The promise is set at most once, with what the target
produced if the task ran; a future that did not run holds one of the two
exceptions, a broken promise if its message was rejected. A result never
changes. Once the thread has exited, a future that
was handed out is resolved, or its task is being executed by the worker that
exited itself. -/
theorem future_total (h : (sysLts V).ReachableWhen Engaged s) {i : ℕ} {c : FutureCall V}
    (hc : s.state i = .future c) :
    c.caller ≠ .threw ∧
      (Returns s i ∨ s.thread.thread = none ∧
        (s.thread.dispatch i = .entered (message i) ∨
          s.thread.dispatch i = .idle ∧ s.thread.exit = false)) ∧
      c.settled.length ≤ 1 ∧ OutcomeSpec c (s.result i) ∧
      (∀ m, s.thread.dispatch i = .returned m false → c.caller = .returned →
        s.result i = some .brokenPromise) ∧
      (∀ o, s.result i = some o → ∀ s', (sysLts V).Steps s s' → s'.result i = some o) ∧
      (s.thread.thread = none → s.thread.control = .idle → c.caller = .returned →
        (∃ o, s.result i = some o) ∨ ∃ w, (s.thread.worker w).selfExit = true ∧
          (s.thread.worker w).pc = .invoking (message i)) := by
  have ht := thread_of_reachable h
  have hlife := ThreadState.life_of_reachable ht
  have hsettle := FutureCall.settle_of_reachable (future_reachable h hc)
  refine ⟨(engaged_of_reachable h i c hc).1, returns_or_unengaged h hc, hsettle.length_le,
    outcome_of_reachable h hc, fun m hrej hret => broken_of_rejected h hc hret hrej,
    fun o ho s' hrun => result_steps h.reachable hrun ho, ?_⟩
  intro hnone hidle hret
  cases hres : s.result i with
  | some o => exact Or.inl ⟨o, rfl⟩
  | none =>
    right
    have hholds := ((result_eq_none_iff hlife hc).mp hres).2 hret
    rcases ThreadState.holds_of_stopped hlife (ThreadState.queue_of_reachable ht) hnone hidle hholds
      with ⟨w, m, hse, hw, hid⟩
    -- the message that a worker runs is that of its call
    have hmem := (ThreadState.handler_of_reachable ht).mem w m hw
    have hhist := ThreadState.history_of_reachable ht
    have hmsg := (born_of_pushed hhist (dispatch_of_reachable h)
      (hhist.mem_pushed_of_invoked hmem)).1
    rw [hid] at hmsg
    exact ⟨w, hse, hmsg ▸ hw⟩

/-- Client 0 submits a statement, and client 1 exits the thread while client 0
submits a second one, which is rejected. -/
def futureRun : List (SysLabel ℤ) :=
  Run.create ++ [SysLabel.asyncInvokeFuture (.client 0)] ++ Run.dispatch 0 ++
    [SysLabel.future 0 .dispatched, .future 0 .ret, .asyncInvokeFuture (.client 0),
      .thread (.exitThread (.client 1)), .thread (.exitPush (.client 1)),
      .thread (.dispatchDelegate (message 1)), .future 1 .dispatched, .future 1 .ret] ++
    Run.take 0 ++
    [SysLabel.task 0 0 .run, .task 0 0 (.targetReturn 7), .task 0 0 (.settle (.value 7)),
      .thread (.invokeReturn 0 (message 0)), .thread (.processLoop 0), .thread (.processTake 0),
      .thread (.processSwitch 0 .exit), .thread (.exitJoin (.client 1)),
      .thread (.exitReset (.client 1))]

theorem future_total_run :
    ∃ s : Sys ℤ, (sysLts ℤ).ReachableWhen Engaged s ∧ s.result 0 = some (.value 7) ∧
      s.result 1 = some .brokenPromise ∧
      ∀ s', (sysLts ℤ).Steps s s' → s'.result 1 = some .brokenPromise := by
  obtain ⟨s, hr, hp⟩ := (sysLts ℤ).execWhen_reachable Engaged rfl futureRun
    (fun s => s.state 1 = .future ⟨.returned, .idle, [], []⟩ ∧ s.result 0 = some (.value 7) ∧
      s.result 1 = some .brokenPromise) (by decide)
  rcases of_decide_eq_true hp with ⟨hc, h₀, h₁⟩
  have htotal := future_total hr hc
  exact ⟨s, hr, h₀, h₁, htotal.2.2.2.2.2.1 _ h₁⟩

/-- Before the first `CreateThread` the call is left by an exception, and no
future is returned. -/
theorem future_refused :
    ∃ s : Sys ℤ, (sysLts ℤ).Reachable s ∧ s.thread.thread = none ∧
      s.state 0 = .future FutureCall.refused ∧ s.hasFuture 0 = false := by
  obtain ⟨s, hr, hp⟩ := (sysLts ℤ).execWhen_reachable Lts.always rfl
    [.asyncInvokeFuture (.client 0)]
    (fun s => s.thread.thread = none ∧ s.state 0 = .future FutureCall.refused ∧
      s.hasFuture 0 = false) (by decide)
  exact ⟨s, hr, of_decide_eq_true hp⟩

end Sys

end AsyncSqlite
