import AsyncSqlite.Sqlite.Model

/-!
# AsyncSqlite.Sqlite.Step — what one step of the interface can do

`SysEffect` resolves the branches of `Sys.update` once, and `CallMove` says what
that means for a single call; the invariants of the interface are proved by
cases on one of them. `Sys.thread_reachable` projects a run of the interface to
a run of its `Thread`, so that every result about the thread holds here.
-/

namespace AsyncSqlite

universe u

namespace Sys

variable {V : Type u} {l : SysLabel V} {s s' : Sys V}

/-! ## Small facts about the updates -/

@[simp] theorem setState_state (s : Sys V) (i j : ℕ) (st : CallState V) :
    (s.setState i st).state j = if j = i then st else s.state j := by
  by_cases h : j = i
  · subst h
    simp [setState, state]
  · simp [setState, state, h]

@[simp] theorem setState_caller (s : Sys V) (i j : ℕ) (st : CallState V) :
    ((s.setState i st).calls j).caller = (s.calls j).caller := by
  by_cases h : j = i
  · subst h
    simp [setState]
  · simp [setState, h]

@[simp] theorem setState_program (s : Sys V) (i j : ℕ) (st : CallState V) :
    ((s.setState i st).calls j).program = (s.calls j).program := by
  by_cases h : j = i
  · subst h
    simp [setState]
  · simp [setState, h]

@[simp] theorem issue_state (s : Sys V) (t : Tid) (st : CallState V) (j : ℕ) :
    (s.issue t st).state j = if j = s.ncalls then st else s.state j := by
  by_cases h : j = s.ncalls
  · subst h
    simp [issue, state]
  · simp [issue, state, h]

theorem issue_calls_of_ne (s : Sys V) (t : Tid) (st : CallState V) {j : ℕ} (h : j ≠ s.ncalls) :
    (s.issue t st).calls j = s.calls j := by
  simp [issue, h]

theorem issue_calls_self (s : Sys V) (t : Tid) (st : CallState V) :
    (s.issue t st).calls s.ncalls = ⟨t, s.programOf t, st⟩ := by
  simp [issue]

@[simp] theorem recordStart_state (s : Sys V) (p i j : ℕ) :
    (s.recordStart p i).state j = s.state j := rfl

/-! ## The outcomes of a step -/

/-- The state in which a new call of `t` begins. -/
inductive Issued (l : SysLabel V) (s : Sys V) (t : Tid) : CallState V → Prop
  | refused : s.thread.thread = none → Issued l s t .refused
  | wait (forever : Bool) : (∀ w, t = .worker w → s.thread.thread ≠ some (some w)) →
      (s.thread.thread = none → ∃ c, t = .client c) → Issued l s t (.wait (.initial forever))
  | futureRefused : l = .asyncInvokeFuture t → s.thread.thread = none →
      Issued l s t (.future .refused)
  | notRunning : s.thread.thread = some none → Issued l s t (.future .notRunning)
  | future (w : ℕ) : s.thread.thread = some (some w) → Issued l s t (.future .initial)

/-- The outcomes of one step. -/
inductive SysEffect (l : SysLabel V) (s : Sys V) : Sys V → Prop
  | thread (k : ThreadLabel) : l = .thread k → ThreadState.guard k s.thread → s.threadGuard k →
      (∀ w x, k = .processSwitch w x → x.target = none) →
      SysEffect l s (s.withThread (ThreadState.update sqliteConfig k s.thread))
  | enter (w : ℕ) (x : ThreadMsg) (m : DelegateMsg) : l = .thread (.processSwitch w x) →
      (s.thread.worker w).pc = .got x → x.target = some m →
      SysEffect l s ((s.withThread (s.thread.invoke w m)).setState m.id (s.state m.id).enter)
  | issue (t : Tid) (st : CallState V) : s.mayAct t → Issued l s t st →
      SysEffect l s (s.issue t st)
  | inPlace (w : ℕ) : s.mayAct (.worker w) → s.thread.thread = some (some w) →
      SysEffect l s ((s.issue (.worker w) (.inPlace .running)).recordStart
        ((s.programOf (.worker w)).getD s.ncalls) s.ncalls)
  | wait (i : ℕ) (c : WaitCall V) (k : WaitLabel V) : l = .wait i k → k.isCaller = true →
      s.waitGuard i k → s.state i = .wait c → WaitCall.guard k c →
      SysEffect l s (s.setState i (.wait (c.update k)))
  | invoke (w i : ℕ) (c : WaitCall V) (k : WaitLabel V) : l = .invoke w i k →
      k.isCaller = false → k ≠ .enter → (s.thread.worker w).pc = .invoking (message i) →
      (k.isTargetExit = true → s.mayLeave (.worker w) 0) → s.state i = .wait c →
      WaitCall.guard k c → c.startsTarget k = false →
      SysEffect l s (s.setState i (.wait (c.update k)))
  | start (w i : ℕ) (c : WaitCall V) : l = .invoke w i .workerCheck →
      (s.thread.worker w).pc = .invoking (message i) → s.state i = .wait c →
      c.invoke = .locked → c.invokerWaiting = true →
      SysEffect l s ((s.setState i (.wait (c.update .workerCheck))).recordStart i i)
  | future (i : ℕ) (c : FutureCall V) (k : FutureLabel V) : l = .future i k →
      k.isCaller = true → s.futureGuard i k → s.state i = .future c → FutureCall.guard k c →
      SysEffect l s (s.setState i (.future (c.update k)))
  | task (w i : ℕ) (c : FutureCall V) (k : FutureLabel V) : l = .task w i k →
      k.isCaller = false → k ≠ .enter → k ≠ .run →
      (s.thread.worker w).pc = .invoking (message i) →
      (k.isTargetExit = true → s.mayLeave (.worker w) 0) → s.state i = .future c →
      FutureCall.guard k c → SysEffect l s (s.setState i (.future (c.update k)))
  | run (w i : ℕ) (c : FutureCall V) : l = .task w i .run →
      (s.thread.worker w).pc = .invoking (message i) → s.state i = .future c →
      c.task = .entered →
      SysEffect l s ((s.setState i (.future (c.update .run))).recordStart i i)
  | leave (i : ℕ) (pc : InlinePc V) : s.state i = .inPlace .running → pc ≠ .running →
      s.mayLeave (s.calls i).caller (i + 1) → SysEffect l s (s.setState i (.inPlace pc))
  | get (t : Tid) (i : ℕ) : l = .get t i → s.mayAct t → s.hasFuture i = true →
      SysEffect l s { s with awaiting := Function.update s.awaiting t (some i) }
  | gotten (t : Tid) (i : ℕ) : l = .gotten t i → s.awaiting t = some i →
      (s.result i).isSome = true →
      SysEffect l s { s with awaiting := Function.update s.awaiting t none }

theorem asyncInvoke_effect {t : Tid} (forever : Bool) (hact : s.mayAct t) :
    SysEffect l s (s.asyncInvoke t forever) := by
  unfold asyncInvoke ThreadState.getThreadId
  cases hth : s.thread.thread with
  | none => exact .issue t _ hact (.refused hth)
  | some h =>
    dsimp only [Option.map_some]
    split
    · rename_i hid
      -- the id is that of the worker, which is the caller itself
      cases h with
      | none => cases hid
      | some w =>
        have ht : Tid.worker w = t := by simpa using hid
        subst ht
        exact .inPlace w hact hth
    · rename_i hid
      refine .issue t _ hact (.wait forever ?_ ?_)
      · intro w htw hw
        rw [hth] at hw
        have hh : h = some w := by simpa using hw
        exact hid (by rw [hh, htw]; rfl)
      · intro hnone
        rw [hth] at hnone
        cases hnone

theorem asyncInvokeFuture_effect {t : Tid} (hl : l = .asyncInvokeFuture t) (hact : s.mayAct t) :
    SysEffect l s (s.asyncInvokeFuture t) := by
  unfold asyncInvokeFuture ThreadState.getThreadId
  cases hth : s.thread.thread with
  | none => exact .issue t _ hact (.futureRefused hl hth)
  | some h =>
    cases h with
    | none => exact .issue t _ hact (.notRunning hth)
    | some w => exact .issue t _ hact (.future w hth)

theorem threadStep_effect {k : ThreadLabel} (hl : l = .thread k)
    (hg : ThreadState.guard k s.thread) (hk : s.threadGuard k) :
    SysEffect l s (update l s) := by
  subst hl
  cases k with
  | processSwitch w x =>
    have hw : (s.thread.worker w).pc = .got x := hg
    cases hx : x.target with
    | some m =>
      have hthread : ThreadState.update sqliteConfig (.processSwitch w x) s.thread =
          s.thread.invoke w m := by
        simp only [ThreadState.update, ThreadState.processSwitch, hx]
      simp only [update, hx, hthread]
      exact .enter w x m rfl hw hx
    | none =>
      simp only [update, hx]
      refine .thread _ rfl hg hk ?_
      rintro v y heq
      cases heq
      exact hx
  | _ => exact .thread _ rfl hg hk (by simp)

/-- Every step has one of the listed outcomes. -/
theorem sys_effect (hg : guard l s) : SysEffect l s (update l s) := by
  cases l with
  | thread k => exact threadStep_effect rfl hg.1 hg.2
  | asyncInvoke t forever => exact asyncInvoke_effect forever hg
  | blockExecute c forever =>
    exact .issue _ _ hg (.wait forever (by simp) fun _ => ⟨c, rfl⟩)
  | asyncInvokeFuture t => exact asyncInvokeFuture_effect rfl hg
  | wait i k =>
    rcases hg with ⟨hside, hk, c, hc, hgc⟩
    simp only [update, hc]
    exact .wait i c k rfl hside hk hc hgc
  | invoke w i k =>
    rcases hg with ⟨hside, hne, hw, hexit, c, hc, hgc⟩
    simp only [update, hc]
    split
    · rename_i hstart
      cases k with
      -- the check of the worker is the step that starts the target
      | workerCheck => exact .start w i c rfl hw hc hgc hstart
      | _ => cases hstart
    · rename_i hstart
      exact .invoke w i c k rfl hside hne hw hexit hc hgc (by simpa using hstart)
  | future i k =>
    rcases hg with ⟨hside, hk, c, hc, hgc⟩
    simp only [update, hc]
    exact .future i c k rfl hside hk hc hgc
  | task w i k =>
    rcases hg with ⟨hside, hne, hw, hexit, c, hc, hgc⟩
    simp only [update, hc]
    split
    · rename_i hrun
      cases k with
      -- the task is started by its `run`
      | run => exact .run w i c rfl hw hc hgc
      | _ => cases hrun
    · rename_i hrun
      refine .task w i c k rfl hside hne ?_ hw hexit hc hgc
      rintro rfl
      exact hrun rfl
  | inPlaceReturn i v => exact .leave i _ hg.1 (by simp) hg.2
  | inPlaceThrow i => exact .leave i _ hg.1 (by simp) hg.2
  | get t i => exact .get t i rfl hg.1 hg.2
  | gotten t i => exact .gotten t i rfl hg.1 hg.2

/-! ## The outcomes for one call -/

/-- What one step does to call `i`: the last index is the new state of the
call. -/
inductive CallMove (l : SysLabel V) (s : Sys V) (i : ℕ) : CallState V → Prop
  | keep : CallMove l s i (s.state i)
  | issue (t : Tid) (st : CallState V) : i = s.ncalls → Issued l s t st → CallMove l s i st
  | inPlace : i = s.ncalls → CallMove l s i (.inPlace .running)
  | enter (w : ℕ) (x : ThreadMsg) (m : DelegateMsg) : l = .thread (.processSwitch w x) →
      (s.thread.worker w).pc = .got x → x.target = some m → m.id = i →
      CallMove l s i (s.state i).enter
  | wait (c : WaitCall V) (k : WaitLabel V) : l = .wait i k → k.isCaller = true →
      s.waitGuard i k → s.state i = .wait c → WaitCall.guard k c →
      CallMove l s i (.wait (c.update k))
  | invoke (w : ℕ) (c : WaitCall V) (k : WaitLabel V) : l = .invoke w i k →
      k.isCaller = false → k ≠ .enter → (s.thread.worker w).pc = .invoking (message i) →
      (k.isTargetExit = true → s.mayLeave (.worker w) 0) → s.state i = .wait c →
      WaitCall.guard k c → CallMove l s i (.wait (c.update k))
  | future (c : FutureCall V) (k : FutureLabel V) : l = .future i k → k.isCaller = true →
      s.futureGuard i k → s.state i = .future c → FutureCall.guard k c →
      CallMove l s i (.future (c.update k))
  | task (w : ℕ) (c : FutureCall V) (k : FutureLabel V) : l = .task w i k →
      k.isCaller = false → k ≠ .enter → (s.thread.worker w).pc = .invoking (message i) →
      (k.isTargetExit = true → s.mayLeave (.worker w) 0) → s.state i = .future c →
      FutureCall.guard k c → CallMove l s i (.future (c.update k))
  | leave (pc : InlinePc V) : s.state i = .inPlace .running → CallMove l s i (.inPlace pc)

/-- A step that moves one call leaves every other one where it is. -/
theorem setState_move {i j : ℕ} {st : CallState V} (h : CallMove l s i st) :
    CallMove l s j ((s.setState i st).state j) := by
  rw [setState_state]
  split
  · rename_i heq
    subst heq
    exact h
  · exact .keep

/-- Every step makes one of the listed moves on each call. -/
theorem call_move (h : SysEffect l s s') (i : ℕ) :
    ∃ st, s'.state i = st ∧ CallMove l s i st := by
  refine ⟨s'.state i, rfl, ?_⟩
  cases h with
  | thread k | get t j | gotten t j => exact .keep
  | enter w x m hl hw hx =>
    exact setState_move (.enter w x m hl hw hx rfl)
  | issue t st hact hst =>
    rw [issue_state]
    split
    · rename_i heq
      exact .issue t st heq hst
    · exact .keep
  | inPlace w =>
    rw [recordStart_state, issue_state]
    split
    · rename_i heq
      exact .inPlace heq
    · exact .keep
  | wait j c k hl hside hk hc hg => exact setState_move (.wait c k hl hside hk hc hg)
  | invoke w j c k hl hside hne hw hexit hc hg =>
    exact setState_move (.invoke w c k hl hside hne hw hexit hc hg)
  | start w j c hl hw hc hpc =>
    have hexit : WaitLabel.isTargetExit (.workerCheck : WaitLabel V) = false := rfl
    exact setState_move (.invoke w c .workerCheck hl rfl (by simp) hw (by simp [hexit]) hc hpc)
  | future j c k hl hside hk hc hg => exact setState_move (.future c k hl hside hk hc hg)
  | task w j c k hl hside hne hrun hw hexit hc hg =>
    exact setState_move (.task w c k hl hside hne hw hexit hc hg)
  | run w j c hl hw hc hpc =>
    have hexit : FutureLabel.isTargetExit (.run : FutureLabel V) = false := rfl
    exact setState_move (.task w c .run hl rfl (by simp) hw (by simp [hexit]) hc hpc)
  | leave j pc hc => exact setState_move (.leave pc hc)

/-! ## The thread inside the interface -/

/-- A step of the interface is a step of its thread, or leaves it alone. -/
theorem thread_step (h : SysEffect l s s') :
    s'.thread = s.thread ∨
      ∃ k, l = .thread k ∧ ThreadState.guard k s.thread ∧ s.threadGuard k ∧
        s'.thread = ThreadState.update sqliteConfig k s.thread := by
  cases h with
  | thread k hl hg hk => exact Or.inr ⟨k, hl, hg, hk, rfl⟩
  | enter w x m hl hw hx =>
    refine Or.inr ⟨.processSwitch w x, hl, hw, trivial, ?_⟩
    show s.thread.invoke w m = _
    simp only [ThreadState.update, ThreadState.processSwitch, hx]
  | _ => exact Or.inl rfl

theorem thread_update (k : ThreadLabel) (s : Sys V) :
    (update (.thread k) s).thread = ThreadState.update sqliteConfig k s.thread := by
  cases k with
  | processSwitch w x =>
    simp only [update]
    cases x.target <;> rfl
  | _ => rfl

/-- The condition that a run of the interface puts on its thread. -/
def OnThread (ok : ThreadLabel → ThreadState → Prop) (l : SysLabel V) (s : Sys V) : Prop :=
  ∀ k, l = .thread k → ok k s.thread

theorem thread_reachable {ok : SysLabel V → Sys V → Prop}
    {okT : ThreadLabel → ThreadState → Prop} (hok : ∀ l s, ok l s → OnThread okT l s)
    (h : (sysLts V).ReachableWhen ok s) : (threadLts sqliteConfig).ReachableWhen okT s.thread := by
  refine h.map (f := Sys.thread) ?_ ?_
  · rintro s rfl
    rfl
  · intro l s _ hg hl
    rcases thread_step (sys_effect hg) with hsame | ⟨k, hk, hgk, -, hupd⟩
    · exact Or.inl hsame
    · exact Or.inr ⟨k, hgk, hok l s hl k hk, hupd⟩

theorem thread_of_reachable {ok : SysLabel V → Sys V → Prop}
    (h : (sysLts V).ReachableWhen ok s) : (threadLts sqliteConfig).Reachable s.thread :=
  thread_reachable (fun _ _ _ _ _ => trivial) h

end Sys

end AsyncSqlite
