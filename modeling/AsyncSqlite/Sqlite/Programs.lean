import AsyncSqlite.Lts.History
import AsyncSqlite.Sqlite.Calls

/-!
# AsyncSqlite.Sqlite.Programs — who runs what

The calls of a program, the targets the workers are inside of, and the history
of starts:

* a target runs only while a worker is inside `Invoke` for its message
  (`InvokeInv`);
* a call of a program was issued while the target of its message ran
  (`ProgramInv`);
* `started` lists every call whose target or function has been started, once
  (`StartInv`);
* a thread issues a call only when its earlier calls have left it alone
  (`QuietInv`), so its messages are pushed in the order of its calls
  (`PushInv`).
-/

namespace AsyncSqlite

universe u

/-- The ways to make a call. -/
inductive CallKind where
  | unborn | refused | inPlace | wait | future
deriving DecidableEq, Repr

namespace CallState

variable {V : Type u}

/-- The target of the call, or the function that it runs in place, has been
started. -/
def hasStarted : CallState V → Bool
  | .inPlace _ => true
  | .wait c => c.invoke.isStarted
  | .future c => match c.task with
    | .idle | .entered => false
    | _ => true
  | _ => false

/-- How a call was made; it does not change over the life of the call. -/
def kind : CallState V → CallKind
  | .unborn => .unborn
  | .refused => .refused
  | .inPlace _ => .inPlace
  | .wait _ => .wait
  | .future _ => .future

/-- A worker is inside `Invoke` for the call. -/
def inInvoke (st : CallState V) : Bool :=
  st.entered && !st.handlerReturned && !st.handlerThrew

theorem inInvoke_of_running {st : CallState V} (h : st.targetRunning = true) :
    st.inInvoke = true := by
  cases st with
  | wait c =>
    have hpc : c.invoke = .running := by simpa [targetRunning] using h
    simp [inInvoke, entered, handlerReturned, handlerThrew, hpc, InvokePc.isReturned]
  | future c =>
    cases hpc : c.task <;>
      simp_all [targetRunning, inInvoke, entered, handlerReturned, handlerThrew]
  | unborn | refused | inPlace pc => cases h

theorem hasStarted_of_running {st : CallState V} (h : st.targetRunning = true) :
    st.hasStarted = true := by
  cases st with
  | wait c =>
    have hpc : c.invoke = .running := by simpa [targetRunning] using h
    simp [hasStarted, hpc, InvokePc.isStarted]
  | future c => cases hpc : c.task <;> simp_all [targetRunning, hasStarted]
  | unborn | refused | inPlace pc => cases h

/-- A target is started only after the worker has entered `Invoke`. -/
theorem entered_of_hasStarted {st : CallState V} (h : st.hasStarted = true)
    (hk : st.kind ≠ .inPlace) : st.entered = true := by
  cases st with
  | inPlace pc => exact absurd rfl hk
  | wait c => cases hpc : c.invoke <;> simp_all [hasStarted, entered, InvokePc.isStarted]
  | future c => cases hpc : c.task <;> simp_all [hasStarted, entered]
  | unborn | refused => cases h

/-- What runs in place is not the target of a message. -/
theorem kind_of_running {st : CallState V} (h : st.targetRunning = true) :
    st.kind ≠ .inPlace := by
  cases st with
  | wait c | future c => simp [kind]
  | unborn | refused | inPlace pc => cases h

theorem hasStarted_of_inPlace {st : CallState V} (h : st.kind = .inPlace) :
    st.hasStarted = true := by
  cases st with
  | inPlace pc => rfl
  | _ => cases h

end CallState

/-! ## The two sides of a call -/

section

variable {V : Type u}

/-- The caller's steps leave the worker's side where it is. -/
theorem WaitCall.update_invoke {c : WaitCall V} {k : WaitLabel V} (hside : k.isCaller = true) :
    (c.update k).invoke = c.invoke := by
  cases k with
  | callerRead waited => cases waited <;> rfl
  | dispatched _ | dispatchThrew | waitSignaled | waitTimeout | callerLock _ | callerClear _ _
  | callerUnlock _ _ => rfl
  | enter | workerLock | workerCheck | targetReturn _ | targetThrow | setSucceeded | signal
  | workerUnlock => cases hside

theorem FutureCall.update_task {c : FutureCall V} {k : FutureLabel V} (hside : k.isCaller = true) :
    (c.update k).task = c.task := by
  cases k with
  | dispatched | dispatchThrew | ret => rfl
  | enter | run | targetReturn _ | targetThrow | settle _ => cases hside

/-- A step of `Invoke` that is not the start of the target. -/
theorem WaitCall.invoke_started {c : WaitCall V} {k : WaitLabel V} (hside : k.isCaller = false)
    (hne : k ≠ .enter) (hg : WaitCall.guard k c) (hstart : c.startsTarget k = false) :
    (c.update k).invoke.isStarted = c.invoke.isStarted ∧ (c.update k).invoke ≠ .running := by
  cases k with
  | enter => exact absurd rfl hne
  | workerCheck =>
    have hpc : c.invoke = .locked := hg
    have hwaiting : c.invokerWaiting = false := hstart
    simp [WaitCall.update, hwaiting, hpc, InvokePc.isStarted]
  | workerLock => simp [WaitCall.update, hg.1, InvokePc.isStarted]
  | targetReturn _ | targetThrow | setSucceeded =>
    have hpc := hg
    simp only [WaitCall.guard] at hpc
    simp [WaitCall.update, hpc, InvokePc.isStarted]
  | signal =>
    rcases hg with hpc | hpc <;>
      simp [WaitCall.update, hpc, InvokePc.afterSignal, InvokePc.isStarted]
  | workerUnlock =>
    rcases hg with hpc | hpc | hpc <;>
      simp [WaitCall.update, hpc, InvokePc.afterUnlock, InvokePc.isStarted]
  | dispatched _ | dispatchThrew | waitSignaled | waitTimeout | callerLock _ | callerRead _
  | callerClear _ _ | callerUnlock _ _ => cases hside

/-- A step of the task behind the start of the target. -/
theorem FutureCall.task_started {c : FutureCall V} {k : FutureLabel V} (hside : k.isCaller = false)
    (hne : k ≠ .enter) (hrun : k ≠ .run) (hg : FutureCall.guard k c) :
    (CallState.future c).hasStarted = true ∧ (CallState.future (c.update k)).hasStarted = true ∧
      (CallState.future (c.update k)).targetRunning = false := by
  cases k with
  | enter => exact absurd rfl hne
  | run => exact absurd rfl hrun
  | targetReturn _ | targetThrow | settle _ =>
    have hpc := hg
    simp only [FutureCall.guard] at hpc
    simp [CallState.hasStarted, CallState.targetRunning, FutureCall.update, hpc]
  | dispatched | dispatchThrew | ret => cases hside

/-- A blocking call that was left stays left. -/
theorem WaitCall.closed_kept {c : WaitCall V} {k : WaitLabel V} (hg : WaitCall.guard k c)
    (hclosed : (CallState.wait c).isClosed = true) :
    (CallState.wait (c.update k)).isClosed = true := by
  by_cases hside : k.isCaller = true
  · -- every step of the caller starts before the end of the call
    exfalso
    cases k with
    | waitSignaled | waitTimeout | callerLock _ =>
      have hpc := hg.1
      simp [CallState.isClosed, hpc] at hclosed
    | dispatched _ | dispatchThrew | callerRead _ | callerClear _ _ | callerUnlock _ _ =>
      have hpc := hg
      simp only [WaitCall.guard] at hpc
      simp [CallState.isClosed, hpc] at hclosed
    | enter | workerLock | workerCheck | targetReturn _ | targetThrow | setSucceeded | signal
    | workerUnlock => cases hside
  · have hcaller := WaitCall.update_caller (c := c) (k := k) (by simpa using hside)
    simpa [CallState.isClosed, hcaller] using hclosed

theorem FutureCall.closed_kept {c : FutureCall V} {k : FutureLabel V} (hg : FutureCall.guard k c)
    (hclosed : (CallState.future c).isClosed = true) :
    (CallState.future (c.update k)).isClosed = true := by
  by_cases hside : k.isCaller = true
  · exfalso
    cases k with
    | dispatched | dispatchThrew | ret =>
      have hpc := hg
      simp only [FutureCall.guard] at hpc
      simp [CallState.isClosed, hpc] at hclosed
    | enter | run | targetReturn _ | targetThrow | settle _ => cases hside
  · have hcaller := FutureCall.update_caller (c := c) (k := k) (by simpa using hside)
    simpa [CallState.isClosed, hcaller] using hclosed

/-- A call that is being dispatched has not been left. -/
theorem CallState.not_quiet_of_dispatching {st : CallState V} (h : st.isDispatching = true) :
    st.isQuiet = false := by
  cases st with
  | wait c => cases hpc : c.caller <;> simp_all [isDispatching, isQuiet, isClosed]
  | future c => simp_all [isDispatching, isQuiet, isClosed]
  | unborn | refused | inPlace pc => cases h

end

namespace Sys

variable {V : Type u} {l : SysLabel V} {s s' : Sys V}

theorem BirthInv.lt (hb : BirthInv s) {i : ℕ} (h : s.state i ≠ .unborn) : i < s.ncalls := by
  by_contra hge
  exact h (hb i (by omega))

/-! ## What one step does to the calls -/

/-- Who issued a call, and for which message, does not change. -/
theorem origin_of_step (h : SysEffect l s s') {i : ℕ} (hi : i < s.ncalls) :
    (s'.calls i).caller = (s.calls i).caller ∧ (s'.calls i).program = (s.calls i).program := by
  have hne : i ≠ s.ncalls := by omega
  cases h with
  | thread k | get t j | gotten t j => exact ⟨rfl, rfl⟩
  | issue t st => exact ⟨by rw [issue_calls_of_ne _ _ _ hne], by rw [issue_calls_of_ne _ _ _ hne]⟩
  | inPlace w =>
    show (((s.issue _ _).calls i).caller = _) ∧ ((s.issue _ _).calls i).program = _
    rw [issue_calls_of_ne _ _ _ hne]
    exact ⟨rfl, rfl⟩
  | enter w x m =>
    exact ⟨setState_caller (s.withThread _) m.id i _, setState_program (s.withThread _) m.id i _⟩
  | start w j c | run w j c => exact ⟨setState_caller s j i _, setState_program s j i _⟩
  | wait j c k | invoke w j c k | future j c k | task w j c k | leave j pc =>
    exact ⟨setState_caller s j i _, setState_program s j i _⟩

/-- Only issuing a call makes one. -/
theorem ncalls_of_step (h : SysEffect l s s') :
    s'.ncalls = s.ncalls ∨
      s'.ncalls = s.ncalls + 1 ∧ s'.thread = s.thread ∧
        ∃ t st, s.mayAct t ∧ s'.calls s.ncalls = ⟨t, s.programOf t, st⟩ ∧
          (Issued l s t st ∨
            ∃ w, t = .worker w ∧ st = .inPlace .running ∧ s.thread.thread = some (some w)) := by
  cases h with
  | issue t st hact hst =>
    exact Or.inr ⟨rfl, rfl, t, st, hact, issue_calls_self s t st, Or.inl hst⟩
  | inPlace w hact hth =>
    exact Or.inr ⟨rfl, rfl, .worker w, _, hact, issue_calls_self s _ _,
      Or.inr ⟨w, rfl, rfl, hth⟩⟩
  | _ => exact Or.inl rfl

/-- A call that has left its thread alone keeps doing so. -/
theorem quiet_step (h : SysEffect l s s') {i : ℕ} (hi : i < s.ncalls)
    (hquiet : (s.state i).isQuiet = true) : (s'.state i).isQuiet = true := by
  rcases call_move h i with ⟨st, hst, hmove⟩
  rw [hst]
  cases hmove with
  | keep => exact hquiet
  | issue t _ hnew | inPlace hnew => omega
  | enter w x m =>
    -- the worker's side moves
    cases hc : s.state i with
    | wait c => simpa [hc, CallState.enter, CallState.isQuiet, CallState.isClosed,
        WaitCall.update] using hquiet
    | future c => simpa [hc, CallState.enter, CallState.isQuiet, CallState.isClosed,
        FutureCall.update] using hquiet
    | unborn | refused | inPlace pc => simpa [hc, CallState.enter] using hquiet
  -- a caller that has left takes no further step
  | wait c k hl hside hk hc hg | invoke w c k hl hside hne hw hexit hc hg =>
    rw [hc] at hquiet
    exact WaitCall.closed_kept hg hquiet
  | future c k hl hside hk hc hg | task w c k hl hside hne hw hexit hc hg =>
    rw [hc] at hquiet
    exact FutureCall.closed_kept hg hquiet
  | leave pc => rfl

/-- How a call was made does not change. -/
theorem kind_of_step (h : SysEffect l s s') {i : ℕ} (hi : i < s.ncalls) :
    (s'.state i).kind = (s.state i).kind := by
  rcases call_move h i with ⟨st, hst, hmove⟩
  rw [hst]
  cases hmove with
  | keep => rfl
  | issue t _ hnew | inPlace hnew => omega
  | enter w x m => cases s.state i <;> rfl
  | wait c k hl hside hk hc | invoke w c k hl hside hne hw hexit hc
  | future c k hl hside hk hc | task w c k hl hside hne hw hexit hc | leave pc hc =>
    rw [hc]
    rfl

/-- What a start appends: the start of a message's target by the worker that is
inside `Invoke`, or of a function that a worker runs in place. -/
def Starts (s s' : Sys V) (p j : ℕ) : Prop :=
  (∃ w, p = j ∧ (s.thread.worker w).pc = .invoking (message j) ∧
      (s.state j).entered = true ∧ (s'.state j).targetRunning = true) ∨
    ∃ w m, j = s.ncalls ∧ (s.thread.worker w).pc = .invoking m ∧ m.id = p ∧
      (s.state p).targetRunning = true ∧ s.thread.thread = some (some w) ∧
      s'.calls j = ⟨.worker w, some p, .inPlace .running⟩

/-- Either nothing is started, and no target begins to run, or one call is
started and every other one stays as it is. -/
theorem started_of_step (h : SysEffect l s s') (hi : CallsInv s) :
    (s'.started = s.started ∧ ∀ i, (s'.state i).hasStarted = (s.state i).hasStarted ∧
        ((s'.state i).targetRunning = true → (s.state i).targetRunning = true)) ∨
      ∃ p j, s'.started = s.started ++ [⟨p, j⟩] ∧ s'.thread = s.thread ∧
        (s.state j).hasStarted = false ∧ (s'.state j).hasStarted = true ∧
        (∀ i, i ≠ j → s'.state i = s.state i) ∧ Starts s s' p j := by
  have hset : ∀ j st, st.hasStarted = (s.state j).hasStarted →
      (st.targetRunning = true → (s.state j).targetRunning = true) →
      ∀ i, ((s.setState j st).state i).hasStarted = (s.state i).hasStarted ∧
        (((s.setState j st).state i).targetRunning = true → (s.state i).targetRunning = true) := by
    intro j st h₁ h₂ i
    rw [setState_state]
    split
    · rename_i heq
      subst heq
      exact ⟨h₁, h₂⟩
    · exact ⟨rfl, id⟩
  have hborn : s.state s.ncalls = .unborn := hi.unborn rfl
  cases h with
  | thread k | get t j | gotten t j => exact Or.inl ⟨rfl, fun _ => ⟨rfl, id⟩⟩
  | enter w x m hl hw hx =>
    have hent := (hi.taken hw hx).2.2.1
    refine Or.inl ⟨rfl, hset m.id _ ?_ ?_⟩
    · cases hst : s.state m.id with
      | wait c =>
        rw [hst] at hent
        have hidle : c.invoke = .idle := by simpa [CallState.entered] using hent
        simp [CallState.enter, CallState.hasStarted, WaitCall.update, hidle, InvokePc.isStarted]
      | future c =>
        rw [hst] at hent
        have hidle : c.task = .idle := by cases hpc : c.task <;> simp_all [CallState.entered]
        simp [CallState.enter, CallState.hasStarted, FutureCall.update, hidle]
      | unborn | refused | inPlace pc => rfl
    · intro hrun
      cases hst : s.state m.id <;> rw [hst] at hrun <;>
        simp [CallState.enter, CallState.targetRunning, WaitCall.update, FutureCall.update] at hrun
  | issue t st hact hst =>
    refine Or.inl ⟨rfl, fun i => ?_⟩
    rw [issue_state]
    split
    · rename_i heq
      rw [heq, hborn]
      cases hst <;> exact ⟨rfl, fun hrun => by cases hrun⟩
    · exact ⟨rfl, id⟩
  | inPlace w hact hth =>
    -- the worker that may act is inside the target of a message
    have hprog := hact.1
    simp only [inProgram] at hprog
    split at hprog
    · rename_i m hm
      have hp : s.programOf (.worker w) = some m.id := by simp only [programOf, hm]
      refine Or.inr ⟨m.id, s.ncalls, by rw [hp]; rfl, rfl, by rw [hborn]; rfl, ?_, ?_, ?_⟩
      · rw [recordStart_state, issue_state, if_pos rfl]
        rfl
      · intro i hi
        rw [recordStart_state, issue_state, if_neg hi]
      · refine Or.inr ⟨w, m, rfl, hm, rfl, hprog, hth, ?_⟩
        show (s.issue _ _).calls s.ncalls = _
        rw [issue_calls_self, hp]
    · exact hprog.elim
  | wait j c k hl hside hk hc =>
    refine Or.inl ⟨rfl, hset j _ ?_ ?_⟩
    · simp [hc, CallState.hasStarted, WaitCall.update_invoke hside]
    · simp [hc, CallState.targetRunning, WaitCall.update_invoke hside]
  | invoke w j c k hl hside hne hw hexit hc hg hstart =>
    rcases WaitCall.invoke_started hside hne hg hstart with ⟨h₁, h₂⟩
    refine Or.inl ⟨rfl, hset j _ ?_ ?_⟩
    · simp [hc, CallState.hasStarted, h₁]
    · simp [CallState.targetRunning, h₂]
  -- `Invoke` finds the invoker waiting and starts the target
  | start w j c hl hw hc hpc hwaiting =>
    refine Or.inr ⟨j, j, rfl, rfl, ?_, ?_, ?_, Or.inl ⟨w, rfl, hw, ?_, ?_⟩⟩
    · simp [hc, CallState.hasStarted, hpc, InvokePc.isStarted]
    · simp [CallState.hasStarted, WaitCall.update, hwaiting, InvokePc.isStarted]
    · intro i hi
      rw [recordStart_state, setState_state, if_neg hi]
    · simp [hc, CallState.entered, hpc]
    · simp [CallState.targetRunning, WaitCall.update, hwaiting]
  | future j c k hl hside hk hc =>
    refine Or.inl ⟨rfl, hset j _ ?_ ?_⟩
    · simp [hc, CallState.hasStarted, FutureCall.update_task hside]
    · simp [hc, CallState.targetRunning, FutureCall.update_task hside]
  | task w j c k hl hside hne hrun hw hexit hc hg =>
    rcases FutureCall.task_started hside hne hrun hg with ⟨h₁, h₂, h₃⟩
    refine Or.inl ⟨rfl, hset j _ ?_ ?_⟩
    · rw [hc, h₁, h₂]
    · simp [h₃]
  | run w j c hl hw hc hpc =>
    refine Or.inr ⟨j, j, rfl, rfl, ?_, ?_, ?_, Or.inl ⟨w, rfl, hw, ?_, ?_⟩⟩
    · simp [hc, CallState.hasStarted, hpc]
    · simp [CallState.hasStarted, FutureCall.update]
    · intro i hi
      rw [recordStart_state, setState_state, if_neg hi]
    · simp [hc, CallState.entered, hpc]
    · simp [CallState.targetRunning, FutureCall.update]
  | leave j pc hc =>
    refine Or.inl ⟨rfl, hset j _ ?_ ?_⟩
    · simp [hc, CallState.hasStarted]
    · simp [CallState.targetRunning]

/-! ## Targets run inside `Invoke` -/

/-- A call that the worker has entered and not left has a worker inside
`Invoke` for its message. -/
def InvokeInv (s : Sys V) : Prop :=
  ∀ i, (s.state i).inInvoke = true → ∃ w, (s.thread.worker w).pc = .invoking (message i)

/-- A worker inside `Invoke` for a call that has not left it stays there. -/
theorem invoking_of_inInvoke (h : SysEffect l s s') (hi : CallsInv s) {m : DelegateMsg} {w : ℕ}
    (hin : (s.state m.id).inInvoke = true) (hw : (s.thread.worker w).pc = .invoking m) :
    (s'.thread.worker w).pc = .invoking m := by
  rcases thread_step h with hsame | ⟨k, -, hg, hk, hupd⟩
  · rw [hsame]
    exact hw
  · rw [hupd]
    have heff := ThreadState.step_effect sqliteConfig hg
    rcases ThreadState.invoking_kept heff hi.life.workers hw with hkept | rfl | rfl
    · exact hkept
    · -- `Invoke` returns only behind its last step
      have hret : (s.state m.id).handlerReturned = true := hk
      simp [CallState.inInvoke, hret] at hin
    · have hthrew : (s.state m.id).handlerThrew = true := hk
      simp [CallState.inInvoke, hthrew] at hin

theorem InvokeInv.step (hg : guard l s) (hc : CallsInv s) (hi : InvokeInv s) :
    InvokeInv (update l s) := by
  have heff := sys_effect hg
  intro i hin
  have hkeep : (s.state i).inInvoke = true →
      ∃ w, ((update l s).thread.worker w).pc = .invoking (message i) := by
    intro hold
    rcases hi i hold with ⟨w, hw⟩
    exact ⟨w, invoking_of_inInvoke heff hc hold hw⟩
  rcases call_move heff i with ⟨st, hst, hmove⟩
  rw [hst] at hin
  cases hmove with
  | keep => exact hkeep hin
  | issue t _ hnew hissued => cases hissued <;> cases hin
  | inPlace hnew | leave pc => cases hin
  | enter w x m hl hw hx hm =>
    -- the worker goes into `Invoke` for the call
    subst hl hm
    refine ⟨w, ?_⟩
    have hmsg := (hc.taken hw hx).2.1
    rw [thread_update]
    simp only [ThreadState.update, ThreadState.processSwitch, hx]
    rw [ThreadState.invoke_pc, if_pos rfl, ← hmsg]
  | wait c k hl hside hk hcall =>
    apply hkeep
    have hpc := WaitCall.update_invoke (c := c) hside
    simpa [hcall, CallState.inInvoke, CallState.entered, CallState.handlerReturned,
      CallState.handlerThrew, hpc] using hin
  | future c k hl hside hk hcall =>
    apply hkeep
    have hpc := FutureCall.update_task (c := c) hside
    simpa [hcall, CallState.inInvoke, CallState.entered, CallState.handlerReturned,
      CallState.handlerThrew, hpc] using hin
  | invoke w c k hl hside hne hw | task w c k hl hside hne hw =>
    -- the step is made by the worker that is inside `Invoke` for the call
    subst hl
    refine ⟨w, ?_⟩
    rcases thread_step heff with hsame | ⟨k', hl, -⟩
    · rw [hsame]
      exact hw
    · cases hl

theorem invoke_of_reachable {ok : SysLabel V → Sys V → Prop}
    (h : (sysLts V).ReachableWhen ok s) : InvokeInv s := by
  refine h.induct ?_ ?_
  · rintro s rfl i hin
    cases hin
  · intro l s hr hg _ hi
    exact hi.step hg (calls_of_reachable hr)

/-! ## Programs and starts -/

/-- `started_of_step` from a reachable state. -/
theorem started_of_reachable {ok : SysLabel V → Sys V → Prop}
    (h : (sysLts V).ReachableWhen ok s) (hg : guard l s) :
    ((update l s).started = s.started ∧ ∀ i,
        ((update l s).state i).hasStarted = (s.state i).hasStarted ∧
        (((update l s).state i).targetRunning = true → (s.state i).targetRunning = true)) ∨
      ∃ p j, (update l s).started = s.started ++ [⟨p, j⟩] ∧ (update l s).thread = s.thread ∧
        (s.state j).hasStarted = false ∧ ((update l s).state j).hasStarted = true ∧
        (∀ i, i ≠ j → (update l s).state i = s.state i) ∧ Starts s (update l s) p j := by
  exact started_of_step (sys_effect hg) (calls_of_reachable h)

/-- What has been started stays so. -/
theorem hasStarted_kept {ok : SysLabel V → Sys V → Prop} (h : (sysLts V).ReachableWhen ok s)
    (hg : guard l s) {i : ℕ} (hi : (s.state i).hasStarted = true) :
    ((update l s).state i).hasStarted = true := by
  rcases started_of_reachable h hg with ⟨-, hsame⟩ | ⟨p, j, -, -, hj, -, hother, -⟩
  · rw [(hsame i).1]
    exact hi
  · have hne : i ≠ j := by
      rintro rfl
      rw [hi] at hj
      cases hj
    rw [hother i hne]
    exact hi

/-- A call belongs to a program that had been started when it was issued. -/
structure ProgramInv (s : Sys V) : Prop where
  program : ∀ i p, i < s.ncalls → (s.calls i).program = some p →
    p < i ∧ (s.state p).hasStarted = true
  worker : ∀ i w, i < s.ncalls → (s.calls i).caller = .worker w → (s.calls i).program ≠ none

/-- The call that a step issues, by a program in its own code. -/
theorem issued_of_step (h : SysEffect l s s') {i : ℕ} (hlt : i < s'.ncalls)
    (hnew : ¬ i < s.ncalls) :
    i = s.ncalls ∧ s'.thread = s.thread ∧ ∃ t st, s.mayAct t ∧
      s'.calls s.ncalls = ⟨t, s.programOf t, st⟩ ∧
      (Issued l s t st ∨
        ∃ w, t = .worker w ∧ st = .inPlace .running ∧ s.thread.thread = some (some w)) := by
  rcases ncalls_of_step h with hsame | ⟨hone, hth, hcall⟩
  · omega
  · exact ⟨by omega, hth, hcall⟩

/-- A worker that is in its own code is inside the target of the message. -/
theorem program_of_mayAct {w : ℕ} (hact : s.mayAct (.worker w)) :
    ∃ m, (s.thread.worker w).pc = .invoking m ∧ s.programOf (.worker w) = some m.id ∧
      (s.state m.id).targetRunning = true := by
  have hprog := hact.1
  simp only [inProgram] at hprog
  split at hprog
  · rename_i m hm
    exact ⟨m, hm, by simp only [programOf, hm], hprog⟩
  · exact hprog.elim

theorem ProgramInv.step (h : SysEffect l s s') (hb : BirthInv s)
    (hkept : ∀ i, (s.state i).hasStarted = true → (s'.state i).hasStarted = true)
    (hi : ProgramInv s) : ProgramInv s' := by
  constructor
  · intro i p hlt hp
    by_cases hold : i < s.ncalls
    · rw [(origin_of_step h hold).2] at hp
      rcases hi.program i p hold hp with ⟨hpi, hst⟩
      exact ⟨hpi, hkept p hst⟩
    · rcases issued_of_step h hlt hold with ⟨rfl, -, t, st, hact, hcall, -⟩
      rw [hcall] at hp
      cases t with
      -- a client is not a message's target; a worker issues from inside one
      | client c => cases hp
      | worker w =>
        rcases program_of_mayAct hact with ⟨m, -, hm, hrun⟩
        have hmp : m.id = p := by
          have hp : s.programOf (.worker w) = some p := hp
          rw [hm] at hp
          simpa using hp
        subst hmp
        have hst := CallState.hasStarted_of_running hrun
        refine ⟨hb.lt ?_, hkept m.id hst⟩
        intro hun
        rw [hun] at hst
        cases hst
  · intro i w hlt hw
    by_cases hold : i < s.ncalls
    · rcases origin_of_step h hold with ⟨hc, hp⟩
      rw [hc] at hw
      rw [hp]
      exact hi.worker i w hold hw
    · rcases issued_of_step h hlt hold with ⟨rfl, -, t, st, hact, hcall, -⟩
      rw [hcall] at hw ⊢
      have ht : t = .worker w := hw
      subst ht
      rcases program_of_mayAct hact with ⟨m, -, hm, -⟩
      show s.programOf (.worker w) ≠ none
      simp [hm]

theorem program_of_reachable {ok : SysLabel V → Sys V → Prop}
    (h : (sysLts V).ReachableWhen ok s) : ProgramInv s := by
  refine h.induct ?_ ?_
  · rintro s rfl
    exact ⟨fun i p hi => absurd hi (Nat.not_lt_zero i), fun i w hi => absurd hi (Nat.not_lt_zero i)⟩
  · intro l s hr hg _ hi
    exact hi.step (sys_effect hg) (birth_of_reachable hr) fun i hst => hasStarted_kept hr hg hst

/-- The history of starts. -/
structure StartInv (s : Sys V) : Prop where
  mem : ∀ i, i ∈ s.started.map Start.call ↔ (s.state i).hasStarted = true
  nodup : (s.started.map Start.call).Nodup
  /-- a message's target is started for the message, a function that is run in
  place for the message whose program called it -/
  key : ∀ x ∈ s.started,
    (s.state x.call).kind ≠ .inPlace ∧ x.program = x.call ∨
      (s.state x.call).kind = .inPlace ∧ (s.calls x.call).program = some x.program

theorem StartInv.lt (hi : StartInv s) (hb : BirthInv s) {x : Start} (hx : x ∈ s.started) :
    x.call < s.ncalls := by
  have hst := (hi.mem x.call).mp (List.mem_map_of_mem hx)
  refine hb.lt fun hun => ?_
  rw [hun] at hst
  cases hst

theorem StartInv.step (h : SysEffect l s s') (hb : BirthInv s)
    (hstep : (s'.started = s.started ∧ ∀ i, (s'.state i).hasStarted = (s.state i).hasStarted) ∨
      ∃ p j, s'.started = s.started ++ [⟨p, j⟩] ∧ (s.state j).hasStarted = false ∧
        (s'.state j).hasStarted = true ∧ (∀ i, i ≠ j → s'.state i = s.state i) ∧ Starts s s' p j)
    (hi : StartInv s) : StartInv s' := by
  -- the key of an earlier start is not touched
  have hkey : ∀ x ∈ s.started, (s'.state x.call).kind ≠ .inPlace ∧ x.program = x.call ∨
      (s'.state x.call).kind = .inPlace ∧ (s'.calls x.call).program = some x.program := by
    intro x hx
    have hlt := hi.lt hb hx
    rw [kind_of_step h hlt, (origin_of_step h hlt).2]
    exact hi.key x hx
  rcases hstep with ⟨hsame, hst⟩ | ⟨p, j, happ, hj, hj', hother, hstarts⟩
  · constructor
    · intro i
      rw [hsame, hst i]
      exact hi.mem i
    · rw [hsame]
      exact hi.nodup
    · rw [hsame]
      exact hkey
  · have hfresh : j ∉ s.started.map Start.call := by
      intro hmem
      rw [(hi.mem j).mp hmem] at hj
      cases hj
    constructor
    · intro i
      rw [happ, List.map_append, List.mem_append]
      by_cases heq : i = j
      · subst heq
        simp [hj']
      · rw [hother i heq, ← hi.mem i]
        simp [heq]
    · rw [happ, List.map_append, List.nodup_append]
      refine ⟨hi.nodup, by simp, ?_⟩
      intro a ha b hb' heq
      have hbj : b = j := by simpa using hb'
      exact hfresh (hbj ▸ heq ▸ ha)
    · intro x hx
      rw [happ] at hx
      rcases List.mem_append.mp hx with hx | hx
      · exact hkey x hx
      · have hxj : x = ⟨p, j⟩ := by simpa using hx
        subst hxj
        rcases hstarts with ⟨w, rfl, -, -, hrun⟩ | ⟨w, m, rfl, -, -, -, -, hcall⟩
        · exact Or.inl ⟨CallState.kind_of_running hrun, rfl⟩
        · right
          show (s'.calls s.ncalls).state.kind = .inPlace ∧ _
          rw [hcall]
          exact ⟨rfl, rfl⟩

theorem start_of_reachable {ok : SysLabel V → Sys V → Prop}
    (h : (sysLts V).ReachableWhen ok s) : StartInv s := by
  refine h.induct ?_ ?_
  · rintro s rfl
    constructor <;> simp [Sys.initial, state, CallState.hasStarted]
  · intro l s hr hg _ hi
    refine hi.step (sys_effect hg) (birth_of_reachable hr) ?_
    rcases started_of_reachable hr hg with ⟨hsame, hst⟩ | ⟨p, j, happ, -, hj, hj', hother, hstarts⟩
    · exact Or.inl ⟨hsame, fun i => (hst i).1⟩
    · exact Or.inr ⟨p, j, happ, hj, hj', hother, hstarts⟩

/-! ## The order of a thread's calls -/

/-- When a thread has issued a call, its earlier ones have left it alone. -/
def QuietInv (s : Sys V) : Prop :=
  ∀ i j, i < j → j < s.ncalls → (s.calls i).caller = (s.calls j).caller →
    (s.state i).isQuiet = true

theorem QuietInv.step (h : SysEffect l s s') (hi : QuietInv s) : QuietInv s' := by
  intro i j hij hj hcaller
  by_cases hold : j < s.ncalls
  · have hlt : i < s.ncalls := by omega
    rw [(origin_of_step h hlt).1, (origin_of_step h hold).1] at hcaller
    exact quiet_step h hlt (hi i j hij hold hcaller)
  · -- the caller of the new call was in its own code
    rcases issued_of_step h hj hold with ⟨rfl, -, t, st, hact, hcall, -⟩
    rw [(origin_of_step h hij).1, hcall] at hcaller
    exact quiet_step h hij (hact.2.2.2 i hij hcaller)

theorem quiet_of_reachable {ok : SysLabel V → Sys V → Prop}
    (h : (sysLts V).ReachableWhen ok s) : QuietInv s := by
  refine h.induct ?_ ?_
  · rintro s rfl i j - hj
    exact absurd hj (Nat.not_lt_zero j)
  · intro l s _ hg _ hi
    exact hi.step (sys_effect hg)

/-- A thread's messages are pushed in the order of its calls. -/
def PushInv (s : Sys V) : Prop :=
  ∀ i j, i < j → (s.calls i).caller = (s.calls j).caller → message i ∈ s.thread.pushed →
    message j ∈ s.thread.pushed → Precedes s.thread.pushed (message i) (message j)

theorem lt_of_pushed (hhist : s.thread.HistoryInv) (hd : DispatchInv s) (hb : BirthInv s) {i : ℕ}
    (hm : message i ∈ s.thread.pushed) : i < s.ncalls :=
  hb.lt (born_of_pushed hhist hd hm).2

theorem PushInv.step (h : SysEffect l s s') (hhist : s.thread.HistoryInv) (hd : DispatchInv s)
    (hb : BirthInv s) (hq : QuietInv s) (hi : PushInv s) : PushInv s' := by
  -- what was pushed before belongs to calls that were issued before
  have hold : ∀ i j, i < j → (s'.calls i).caller = (s'.calls j).caller →
      message j ∈ s.thread.pushed → (s.calls i).caller = (s.calls j).caller ∧ j < s.ncalls := by
    intro i j hij hcaller hj
    have hlt := lt_of_pushed hhist hd hb hj
    rw [(origin_of_step h hlt).1, (origin_of_step h (hij.trans hlt)).1] at hcaller
    exact ⟨hcaller, hlt⟩
  have hkeep : s'.thread.pushed = s.thread.pushed → PushInv s' := by
    intro hsame i j hij hcaller hpi hpj
    rw [hsame] at hpi hpj ⊢
    exact hi i j hij (hold i j hij hcaller hpj).1 hpi hpj
  rcases thread_step h with hsame | ⟨k, -, hg, -, hupd⟩
  · exact hkeep (by rw [hsame])
  · rcases ThreadState.pushed_of_step (ThreadState.step_effect sqliteConfig hg) with
      hsame | ⟨m, hm, -, hacc⟩
    · exact hkeep (by rw [hupd, hsame])
    · -- the message of a call that is in its dispatch
      have hpushed : s'.thread.pushed = s.thread.pushed ++ [m] := by
        rw [hupd, hacc]
        rfl
      have hfl : (s.thread.dispatch m.id).inFlight = true := by
        rcases hm with hm | hm <;> rw [hm] <;> rfl
      have hdisp := ((hd m.id).of_inFlight hfl).2.1
      intro i j hij hcaller hpi hpj
      rw [hpushed] at hpi hpj ⊢
      rcases List.mem_append.mp hpj with hj | hj
      · rcases hold i j hij hcaller hj with ⟨hcaller', hlt⟩
        rcases List.mem_append.mp hpi with hpi | hpi
        · exact (hi i j hij hcaller' hpi hj).append [m]
        · -- `i` would still be in its dispatch behind the later call
          have him : message i = m := by simpa using hpi
          have hquiet := hq i j hij hlt hcaller'
          rw [← him] at hdisp
          rw [CallState.not_quiet_of_dispatching hdisp] at hquiet
          cases hquiet
      · have hjm : message j = m := by simpa using hj
        rcases List.mem_append.mp hpi with hpi | hpi
        · rw [hjm]
          exact precedes_concat hpi m
        · have him : message i = m := by simpa using hpi
          have heq : i = j := congrArg DelegateMsg.id (him.trans hjm.symm)
          omega

theorem push_of_reachable {ok : SysLabel V → Sys V → Prop}
    (h : (sysLts V).ReachableWhen ok s) : PushInv s := by
  refine h.induct ?_ ?_
  · rintro s rfl i j - - hm
    cases hm
  · intro l s hr hg _ hi
    exact hi.step (sys_effect hg) (ThreadState.history_of_reachable (thread_of_reachable hr))
      (dispatch_of_reachable hr) (birth_of_reachable hr) (quiet_of_reachable hr)

end Sys

end AsyncSqlite
