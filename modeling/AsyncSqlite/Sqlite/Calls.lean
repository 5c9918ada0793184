import AsyncSqlite.Sqlite.Dispatch

/-!
# AsyncSqlite.Sqlite.Calls — every call is a component

The worker enters exactly the calls whose message the thread has invoked
(`EnterInv`); `CallsInv` collects what is known of calls and messages by then.
With the caller's side this gives the contract of the single call
(`wait_step`, `future_step`), so that every blocking call of the interface is a
run of `waitLts`, and every future call one of `futureLts`: what was proved
about one call holds of each of them, in every interleaving.
-/

namespace AsyncSqlite

universe u

section

variable {V : Type u}

/-- The worker has begun to invoke the message of the call. -/
def CallState.entered : CallState V → Bool
  | .wait c => c.invoke ≠ .idle
  | .future c => match c.task with
    | .idle => false
    | _ => true
  | _ => false

/-- A step of `Invoke` finds it entered and leaves it so. -/
theorem WaitCall.invoke_ne_idle {c : WaitCall V} {k : WaitLabel V} (hside : k.isCaller = false)
    (hne : k ≠ .enter) (hg : WaitCall.guard k c) :
    c.invoke ≠ .idle ∧ (c.update k).invoke ≠ .idle := by
  cases k with
  | enter => exact absurd rfl hne
  | workerCheck =>
    have hpc : c.invoke = .locked := hg
    refine ⟨by simp [hpc], ?_⟩
    simp only [WaitCall.update]
    split <;> simp
  | workerLock => exact ⟨by simp [hg.1], by simp [WaitCall.update]⟩
  | targetReturn _ | targetThrow | setSucceeded =>
    have hpc := hg
    simp only [WaitCall.guard] at hpc
    exact ⟨by simp [hpc], by simp [WaitCall.update]⟩
  | signal =>
    rcases hg with hpc | hpc <;> simp [WaitCall.update, hpc, InvokePc.afterSignal]
  | workerUnlock =>
    rcases hg with hpc | hpc | hpc <;> simp [WaitCall.update, hpc, InvokePc.afterUnlock]
  | dispatched _ | dispatchThrew | waitSignaled | waitTimeout | callerLock _ | callerRead _
  | callerClear _ _ | callerUnlock _ _ => cases hside

/-- A task that is not idle has been entered. -/
theorem CallState.entered_future {c : FutureCall V} (h : c.task ≠ .idle) :
    (CallState.future c).entered = true := by
  cases hpc : c.task <;> simp_all [CallState.entered]

end

namespace Sys

variable {V : Type u} {l : SysLabel V} {s s' : Sys V}

/-! ## The worker's side -/

/-- The calls that the worker has entered are those whose message it invoked. -/
def EnterInv (s : Sys V) : Prop :=
  ∀ i, (s.state i).entered = true ↔ i ∈ s.thread.invoked.map (·.id)

/-- What is known of a call whose message the worker takes: it was accepted, is
not entered yet, and its promise is unset. -/
theorem enter_spec (hlife : s.thread.Life) (hhist : s.thread.HistoryInv) (hd : DispatchInv s)
    (he : EnterInv s) {w : ℕ} {x : ThreadMsg} {m : DelegateMsg}
    (hw : (s.thread.worker w).pc = .got x) (hx : x.target = some m) :
    s.thread.dispatch m.id = .returned m true ∧ m = message m.id ∧
      (s.state m.id).entered = false ∧ (s.state m.id).isUnset ∧
      ((s.state m.id).isDispatching = true ∨ (s.state m.id).isSent true) := by
  have hhand : m ∈ s.thread.hand := by
    rw [ThreadState.hand_of_switch hlife hw hx]
    exact List.mem_singleton_self m
  have hacc := (hhist.mem_pushed m).mp (hhist.mem_pushed_of_hand hhand)
  have hlink := hd m.id
  rw [hacc] at hlink
  rcases hlink with ⟨hm, hst, hu⟩
  refine ⟨hacc, hm, ?_, hu, hst⟩
  by_contra hent
  exact hhist.not_invoked_of_hand hhand ((he m.id).mp (by simpa using hent))

theorem EnterInv.step (h : SysEffect l s s') (hlife : s.thread.Life) (hhist : s.thread.HistoryInv)
    (hd : DispatchInv s) (hb : BirthInv s) (hi : EnterInv s) : EnterInv s' := by
  -- a step that changes one call, and not whether the worker has entered it
  have hset : ∀ j st, st.entered = (s.state j).entered → EnterInv (s.setState j st) := by
    intro j st hst i
    rw [setState_state]
    split
    · rename_i heq
      subst heq
      rw [hst]
      exact hi i
    · exact hi i
  -- the number of a new call is not among the invoked messages
  have hissue : ∀ t st, st.entered = false → EnterInv (s.issue t st) := by
    intro t st hst i
    rw [issue_state]
    split
    · rename_i heq
      subst heq
      rw [hst]
      have hold := hi s.ncalls
      rw [hb s.ncalls le_rfl] at hold
      exact hold
    · exact hi i
  cases h with
  -- a step of the thread that takes no message to `Invoke`
  | thread k hl hg hk hno =>
    intro i
    have hinv : (ThreadState.update sqliteConfig k s.thread).invoked = s.thread.invoked := by
      rcases ThreadState.invoked_of_step (ThreadState.step_effect sqliteConfig hg) with
        hsame | ⟨w, x, m, hlab, hw, hx, -⟩
      · exact hsame
      · rw [hno w x hlab] at hx
        cases hx
    show (s.state i).entered = true ↔ i ∈ (ThreadState.update sqliteConfig k s.thread).invoked.map _
    rw [hinv]
    exact hi i
  | enter w x m hl hw hx =>
    intro i
    rcases enter_spec hlife hhist hd hi hw hx with ⟨-, -, -, -, hst⟩
    rw [setState_state]
    show (if i = m.id then (s.state m.id).enter else s.state i).entered = true ↔
      i ∈ (s.thread.invoked ++ [m]).map (·.id)
    split
    · rename_i heq
      subst heq
      have hent : (s.state m.id).enter.entered = true := by
        cases hc : s.state m.id with
        | wait c => simp [CallState.enter, CallState.entered, WaitCall.update]
        | future c => simp [CallState.enter, CallState.entered, FutureCall.update]
        | _ => simp [hc, CallState.isDispatching, CallState.isSent] at hst
      simp [hent]
    · rename_i hne
      rw [hi i]
      simp [hne]
  | issue t st hact hst => exact hissue t st (by cases hst <;> rfl)
  | inPlace w => exact hissue (.worker w) (.inPlace .running) rfl
  | wait i c k hl hside hk hc hg =>
    refine hset i _ ?_
    rw [hc]
    cases k with
    | callerRead waited => cases waited <;> rfl
    | dispatched _ | dispatchThrew | waitSignaled | waitTimeout | callerLock _ | callerClear _ _
    | callerUnlock _ _ => rfl
    | _ => cases hside
  | invoke w i c k hl hside hne hw hexit hc hg =>
    refine hset i _ ?_
    rw [hc]
    have hpc := WaitCall.invoke_ne_idle hside hne hg
    simp [CallState.entered, hpc.1, hpc.2]
  | start w i c hl hw hc hg =>
    refine hset i _ ?_
    rw [hc]
    have hpc := WaitCall.invoke_ne_idle (c := c) (k := .workerCheck) rfl (by simp) hg
    simp [CallState.entered, hpc.1, hpc.2]
  | future i c k hl hside hk hc hg =>
    refine hset i _ ?_
    rw [hc]
    cases k with
    | dispatched | dispatchThrew | ret => rfl
    | _ => cases hside
  | task w i c k hl hside hne hrun hw hexit hc hg =>
    refine hset i _ ?_
    rw [hc]
    rcases FutureCall.task_ne_idle hside hne hg with ⟨h1, h2⟩
    rw [CallState.entered_future h1, CallState.entered_future h2]
  | run w i c hl hw hc hg =>
    refine hset i _ ?_
    rw [hc]
    rcases FutureCall.task_ne_idle (c := c) (k := .run) rfl (by simp) hg with ⟨h1, h2⟩
    rw [CallState.entered_future h1, CallState.entered_future h2]
  | leave i pc hc =>
    refine hset i _ ?_
    rw [hc]
    rfl
  | get t i => exact hi
  | gotten t i => exact hi

theorem enter_of_reachable {ok : SysLabel V → Sys V → Prop}
    (h : (sysLts V).ReachableWhen ok s) : EnterInv s := by
  refine h.induct ?_ ?_
  · rintro s rfl i
    simp [Sys.initial, state, CallState.entered, ThreadState.initial]
  · intro l s hr hg _ hi
    have ht := thread_of_reachable hr
    exact hi.step (sys_effect hg) (ThreadState.life_of_reachable ht)
      (ThreadState.history_of_reachable ht) (dispatch_of_reachable hr) (birth_of_reachable hr)

/-! ## Calls as components -/

/-- What every reachable state keeps of the calls and their messages. -/
structure CallsInv (s : Sys V) : Prop where
  life : s.thread.Life
  history : s.thread.HistoryInv
  birth : BirthInv s
  dispatch : DispatchInv s
  enter : EnterInv s

theorem calls_of_reachable {ok : SysLabel V → Sys V → Prop}
    (h : (sysLts V).ReachableWhen ok s) : CallsInv s := by
  have ht := thread_of_reachable h
  exact ⟨ThreadState.life_of_reachable ht, ThreadState.history_of_reachable ht,
    birth_of_reachable h, dispatch_of_reachable h, enter_of_reachable h⟩

namespace CallsInv

/-- The message of a call that the worker takes. -/
theorem taken (hi : CallsInv s) {w : ℕ} {x : ThreadMsg} {m : DelegateMsg}
    (hw : (s.thread.worker w).pc = .got x) (hx : x.target = some m) :
    s.thread.dispatch m.id = .returned m true ∧ m = message m.id ∧
      (s.state m.id).entered = false ∧ (s.state m.id).isUnset ∧
      ((s.state m.id).isDispatching = true ∨ (s.state m.id).isSent true) :=
  enter_spec hi.life hi.history hi.dispatch hi.enter hw hx

/-- A message that was not accepted was not invoked. -/
theorem not_entered (hi : CallsInv s) {i : ℕ}
    (hd : ∀ m, s.thread.dispatch i ≠ .returned m true) : (s.state i).entered = false := by
  by_contra hent
  rcases List.mem_map.mp ((hi.enter i).mp (by simpa using hent)) with ⟨m, hm, rfl⟩
  exact hd m ((hi.history.mem_pushed m).mp (hi.history.mem_pushed_of_invoked hm))

/-- Only a call that was not issued is born by a step. -/
theorem unborn (hi : CallsInv s) {i : ℕ} (h : i = s.ncalls) : s.state i = .unborn :=
  hi.birth i (by omega)

end CallsInv

/-- What the caller of a blocking call is told keeps the contract of the
thread: a message that was rejected or thrown out is not invoked. -/
theorem contract_of_caller (hi : CallsInv s) {i : ℕ} {c : WaitCall V} {k : WaitLabel V}
    (hc : s.state i = .wait c) (hside : k.isCaller = true) (hk : s.waitGuard i k) :
    WaitCall.contract k c := by
  have hidle : (∀ m, s.thread.dispatch i ≠ .returned m true) → c.invoke = .idle := by
    intro hne
    have hent := hi.not_entered hne
    rw [hc] at hent
    simpa [CallState.entered] using hent
  cases k with
  | dispatched ok =>
    cases ok with
    | false =>
      apply hidle
      intro m hret
      have hret' : s.thread.dispatch i = .returned (message i) false := hk
      rw [hret'] at hret
      cases hret
    | true => trivial
  | dispatchThrew =>
    apply hidle
    intro m hret
    have hthrew : s.thread.dispatch i = .threw (message i) := hk
    rw [hthrew] at hret
    cases hret
  | enter => cases hside
  | _ => trivial

/-- A step of the interface is, for each blocking call, a step that keeps the
contract of the thread with the call, or leaves the call alone. -/
theorem wait_step (h : SysEffect l s s') (hi : CallsInv s) {i : ℕ} {c : WaitCall V}
    (hc : s.state i = .wait c) :
    s'.state i = .wait c ∨
      ∃ k, (k = .enter ∨ l = .wait i k ∨ ∃ w, l = .invoke w i k) ∧
        (waitLts V).guard k c ∧ s'.state i = .wait (c.update k) := by
  have hsame : ∀ {c'}, s.state i = .wait c' → c' = c := by
    intro c' hc'
    rw [hc'] at hc
    exact CallState.wait.inj hc
  rcases call_move h i with ⟨st, hst, hmove⟩
  rw [hst]
  cases hmove with
  | keep => exact Or.inl hc
  | issue t _ hnew | inPlace hnew =>
    rw [hi.unborn hnew] at hc
    cases hc
  | enter w x m hl hw hx hm =>
    subst hm
    rcases hi.taken hw hx with ⟨-, -, hent, -, hsent⟩
    rw [hc] at hent hsent ⊢
    refine Or.inr ⟨.enter, Or.inl rfl, ⟨trivial, ?_, ?_⟩, rfl⟩
    · simpa [CallState.entered] using hent
    · rcases hsent with hdisp | hsent
      · intro hthrew
        simp [CallState.isDispatching, hthrew] at hdisp
      · exact hsent.2.1
  | wait c' k hl hside hk hc' hg =>
    have hcc := hsame hc'
    subst hcc
    exact Or.inr ⟨k, Or.inr (Or.inl hl), ⟨hg, contract_of_caller hi hc hside hk⟩, rfl⟩
  -- inside `Invoke` the contract asks for nothing more
  | invoke w c' k hl hside hne hw hexit hc' hg =>
    have hcc := hsame hc'
    subst hcc
    refine Or.inr ⟨k, Or.inr (Or.inr ⟨w, hl⟩), ⟨hg, ?_⟩, rfl⟩
    cases k with
    | dispatched _ | dispatchThrew => cases hside
    | enter => exact absurd rfl hne
    | _ => trivial
  | future c' k hl hside hk hc' | task w c' k hl hside hne hw hexit hc' | leave pc hc' =>
    rw [hc'] at hc
    cases hc

/-- The same for future calls. -/
theorem future_step (h : SysEffect l s s') (hi : CallsInv s) {i : ℕ} {c : FutureCall V}
    (hc : s.state i = .future c) :
    s'.state i = .future c ∨
      ∃ k, (k = .enter ∨ l = .future i k ∨ ∃ w, l = .task w i k) ∧
        (futureLts V).guard k c ∧ s'.state i = .future (c.update k) := by
  have hsame : ∀ {c'}, s.state i = .future c' → c' = c := by
    intro c' hc'
    rw [hc'] at hc
    exact CallState.future.inj hc
  rcases call_move h i with ⟨st, hst, hmove⟩
  rw [hst]
  cases hmove with
  | keep => exact Or.inl hc
  | issue t _ hnew | inPlace hnew =>
    rw [hi.unborn hnew] at hc
    cases hc
  | enter w x m hl hw hx hm =>
    subst hm
    -- the message is in a worker's hand, so its task was not entered
    rcases hi.taken hw hx with ⟨-, -, hent, hu, -⟩
    rw [hc] at hent hu ⊢
    have hidle : c.task = .idle := by
      cases hpc : c.task <;> simp_all [CallState.entered]
    exact Or.inr ⟨.enter, Or.inl rfl, ⟨trivial, hidle, hu hidle⟩, rfl⟩
  | future c' k hl hside hk hc' hg =>
    have hcc := hsame hc'
    subst hcc
    refine Or.inr ⟨k, Or.inr (Or.inl hl), ⟨hg, ?_⟩, rfl⟩
    cases k with
    | enter => cases hside
    | _ => trivial
  | task w c' k hl hside hne hw hexit hc' hg =>
    have hcc := hsame hc'
    subst hcc
    refine Or.inr ⟨k, Or.inr (Or.inr ⟨w, hl⟩), ⟨hg, ?_⟩, rfl⟩
    cases k with
    | enter => exact absurd rfl hne
    | _ => trivial
  | wait c' k hl hside hk hc' | invoke w c' k hl hside hne hw hexit hc' | leave pc hc' =>
    rw [hc'] at hc
    cases hc

/-- A call that is not blocking stays so, unless it is issued by this step. -/
theorem wait_born (h : SysEffect l s s') {i : ℕ} {c' : WaitCall V}
    (hc' : s'.state i = .wait c') :
    (∃ c, s.state i = .wait c) ∨ i = s.ncalls ∧ ∃ forever, c' = .initial forever := by
  rcases call_move h i with ⟨st, hst, hmove⟩
  rw [hst] at hc'
  subst hc'
  generalize hnew : CallState.wait c' = st at hmove
  cases hmove with
  | keep => exact Or.inl ⟨c', hnew.symm⟩
  | issue t _ heq hissued =>
    right
    subst hnew
    cases hissued with
    | wait forever => exact ⟨heq, forever, rfl⟩
  | enter w x m =>
    left
    cases hc : s.state i with
    | wait c => exact ⟨c, rfl⟩
    | _ => simp [hc, CallState.enter] at hnew
  | wait c k hl hside hk hc | invoke w c k hl hside hne hw hexit hc => exact Or.inl ⟨c, hc⟩
  | inPlace | future c k | task w c k | leave pc => cases hnew

theorem future_born (h : SysEffect l s s') {i : ℕ} {c' : FutureCall V}
    (hc' : s'.state i = .future c') :
    (∃ c, s.state i = .future c) ∨ i = s.ncalls ∧ (futureLts V).init c' := by
  rcases call_move h i with ⟨st, hst, hmove⟩
  rw [hst] at hc'
  subst hc'
  generalize hnew : CallState.future c' = st at hmove
  cases hmove with
  | keep => exact Or.inl ⟨c', hnew.symm⟩
  | issue t _ heq hissued =>
    right
    subst hnew
    cases hissued with
    | futureRefused => exact ⟨heq, Or.inr (Or.inr rfl)⟩
    | notRunning => exact ⟨heq, Or.inr (Or.inl rfl)⟩
    | future w => exact ⟨heq, Or.inl rfl⟩
  | enter w x m =>
    left
    cases hc : s.state i with
    | future c => exact ⟨c, rfl⟩
    | _ => simp [hc, CallState.enter] at hnew
  | future c k hl hside hk hc | task w c k hl hside hne hw hexit hc => exact Or.inl ⟨c, hc⟩
  | inPlace | wait c k | invoke w c k | leave pc => cases hnew

/-- A condition on the steps of every blocking call. -/
def OnWait (ok : WaitLabel V → WaitCall V → Prop) : SysLabel V → Sys V → Prop
  | .wait i k, s | .invoke _ i k, s => ∀ c, s.state i = .wait c → ok k c
  | _, _ => True

instance (ok : WaitLabel V → WaitCall V → Prop) [∀ k c, Decidable (ok k c)] (l : SysLabel V)
    (s : Sys V) : Decidable (OnWait ok l s) := by
  have hdec : ∀ i k, Decidable (∀ c, s.state i = .wait c → ok k c) := fun i k =>
    match h : s.state i with
    | .wait c => decidable_of_iff (ok k c) (by simp)
    | .unborn | .refused | .inPlace _ | .future _ => isTrue (by simp)
  induction l using SysLabel.casesOn <;> dsimp only [OnWait] <;> infer_instance

/-- The blocking calls of a run of the interface are runs of `waitLts`. -/
theorem wait_steps {ok : SysLabel V → Sys V → Prop} {okW : WaitLabel V → WaitCall V → Prop}
    (hok : ∀ l s, ok l s → OnWait okW l s) (henter : ∀ c, okW .enter c)
    (hr : (sysLts V).Reachable s) (hrun : (sysLts V).StepsWhen ok s s') {i : ℕ} {c : WaitCall V}
    (hc : s.state i = .wait c) :
    ∃ c', s'.state i = .wait c' ∧ (waitLts V).StepsWhen okW c c' := by
  induction hrun with
  | refl => exact ⟨c, hc, .refl⟩
  | tail hpre hlast ih =>
    rcases ih with ⟨c', hc', hsteps⟩
    rcases hlast with ⟨l, hg, hl, rfl⟩
    have hr' := hr.steps (Lts.StepsWhen.mono (fun _ _ _ => trivial) hpre)
    rcases wait_step (sys_effect hg) (calls_of_reachable hr') hc' with
      hsame | ⟨k, hk, hgk, hnew⟩
    · exact ⟨c', hsame, hsteps⟩
    · refine ⟨_, hnew, hsteps.trans (Lts.StepsWhen.single hgk ?_)⟩
      rcases hk with rfl | rfl | ⟨w, rfl⟩
      · exact henter c'
      · exact hok _ _ hl c' hc'
      · exact hok _ _ hl c' hc'

theorem wait_reachable {ok : SysLabel V → Sys V → Prop} {okW : WaitLabel V → WaitCall V → Prop}
    (hok : ∀ l s, ok l s → OnWait okW l s) (henter : ∀ c, okW .enter c)
    (h : (sysLts V).ReachableWhen ok s) {i : ℕ} {c : WaitCall V} (hc : s.state i = .wait c) :
    (waitLts V).ReachableWhen okW c := by
  have hall : ∀ c, s.state i = .wait c → (waitLts V).ReachableWhen okW c := by
    refine h.induct (P := fun s => ∀ c, s.state i = .wait c → (waitLts V).ReachableWhen okW c)
      ?_ ?_
    · rintro s rfl c hc
      cases hc
    · intro l s hr hg hl hi c' hc'
      rcases wait_born (sys_effect hg) hc' with ⟨c₀, hc₀⟩ | ⟨-, forever, rfl⟩
      · obtain ⟨c'', hc'', hsteps⟩ := wait_steps hok henter hr.reachable
          (Lts.StepsWhen.single hg hl) hc₀
        have heq : c'' = c' := by
          have hc' : (update l s).state i = .wait c' := hc'
          have hc'' : (update l s).state i = .wait c'' := hc''
          rw [hc'] at hc''
          exact (CallState.wait.inj hc'').symm
        subst heq
        exact (hi c₀ hc₀).steps hsteps
      · exact Lts.ReachableWhen.start ⟨forever, rfl⟩
  exact hall c hc

theorem future_steps {ok : SysLabel V → Sys V → Prop} (hr : (sysLts V).Reachable s)
    (hrun : (sysLts V).StepsWhen ok s s') {i : ℕ} {c : FutureCall V} (hc : s.state i = .future c) :
    ∃ c', s'.state i = .future c' ∧ (futureLts V).Steps c c' := by
  induction hrun with
  | refl => exact ⟨c, hc, .refl⟩
  | tail hpre hlast ih =>
    rcases ih with ⟨c', hc', hsteps⟩
    rcases hlast with ⟨l, hg, hl, rfl⟩
    have hr' := hr.steps (Lts.StepsWhen.mono (fun _ _ _ => trivial) hpre)
    rcases future_step (sys_effect hg) (calls_of_reachable hr') hc' with
      hsame | ⟨k, -, hgk, hnew⟩
    · exact ⟨c', hsame, hsteps⟩
    · exact ⟨_, hnew, hsteps.trans (Lts.StepsWhen.single hgk trivial)⟩

theorem future_reachable {ok : SysLabel V → Sys V → Prop} (h : (sysLts V).ReachableWhen ok s)
    {i : ℕ} {c : FutureCall V} (hc : s.state i = .future c) : (futureLts V).Reachable c := by
  have hall : ∀ c, s.state i = .future c → (futureLts V).Reachable c := by
    refine h.induct (P := fun s => ∀ c, s.state i = .future c → (futureLts V).Reachable c) ?_ ?_
    · rintro s rfl c hc
      cases hc
    · intro l s hr hg hl hi c' hc'
      rcases future_born (sys_effect hg) hc' with ⟨c₀, hc₀⟩ | ⟨-, hinit⟩
      · rcases future_steps hr.reachable (Lts.StepsWhen.single hg hl) hc₀ with ⟨c'', hc'', hsteps⟩
        have heq : c'' = c' := by
          have hc' : (update l s).state i = .future c' := hc'
          have hc'' : (update l s).state i = .future c'' := hc''
          rw [hc'] at hc''
          exact (CallState.future.inj hc'').symm
        subst heq
        exact (hi c₀ hc₀).steps hsteps
      · exact Lts.ReachableWhen.start hinit
  exact hall c hc

end Sys

end AsyncSqlite
