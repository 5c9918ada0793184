import AsyncSqlite.Sqlite.Fifo
import AsyncSqlite.Sqlite.Held

/-!
# AsyncSqlite.Sqlite.Submission — the order of a program's own calls

A program on the worker mixes blocking calls, which run in place, and future
calls, which are queued behind the program itself.

`submission_order` says exactly which pairs of calls are executed in the order
of the program, and for which futures the program would wait for itself;
`future_is_overtaken` shows both.
-/

namespace AsyncSqlite

universe u

section

variable {V : Type u}

/-- The target is left only by its return or its exception. -/
theorem WaitCall.running_kept {c : WaitCall V} {k : WaitLabel V} (hne : k ≠ .enter)
    (hg : WaitCall.guard k c) (hrun : c.invoke = .running) :
    (c.update k).invoke = .running ∨ k.isTargetExit = true := by
  by_cases hside : k.isCaller = true
  · left
    rw [WaitCall.update_invoke hside]
    exact hrun
  · cases k with
    | enter => exact absurd rfl hne
    | targetReturn _ | targetThrow => exact Or.inr rfl
    | workerLock =>
      rw [hg.1] at hrun
      cases hrun
    | workerCheck | setSucceeded =>
      have hpc := hg
      simp only [WaitCall.guard] at hpc
      rw [hpc] at hrun
      cases hrun
    | signal =>
      rcases hg with hpc | hpc <;> rw [hpc] at hrun <;> cases hrun
    | workerUnlock =>
      rcases hg with hpc | hpc | hpc <;> rw [hpc] at hrun <;> cases hrun
    | dispatched _ | dispatchThrew | waitSignaled | waitTimeout | callerLock _ | callerRead _
    | callerClear _ _ | callerUnlock _ _ => exact absurd rfl hside

theorem FutureCall.running_kept {c : FutureCall V} {k : FutureLabel V} (hne : k ≠ .enter)
    (hg : FutureCall.guard k c) (hrun : c.task = .running) :
    (c.update k).task = .running ∨ k.isTargetExit = true := by
  by_cases hside : k.isCaller = true
  · left
    rw [FutureCall.update_task hside]
    exact hrun
  · cases k with
    | enter => exact absurd rfl hne
    | targetReturn _ | targetThrow => exact Or.inr rfl
    | run | settle _ =>
      have hpc := hg
      simp only [FutureCall.guard] at hpc
      rw [hpc] at hrun
      cases hrun
    | dispatched | dispatchThrew | ret => exact absurd rfl hside

theorem CallState.running_wait {c : WaitCall V} :
    (CallState.wait c).targetRunning = true ↔ c.invoke = .running := by
  simp [targetRunning]

theorem CallState.running_future {c : FutureCall V} :
    (CallState.future c).targetRunning = true ↔ c.task = .running := by
  cases hpc : c.task <;> simp [targetRunning, hpc]

end

namespace Sys

variable {V : Type u} {l : SysLabel V} {s s' : Sys V}

/-! ## A program that waits for a future -/

/-- A target is left only by the worker that runs it, in its own code. -/
theorem running_of_step (h : SysEffect l s s') (hi : CallsInv s) {p : ℕ}
    (hrun : (s.state p).targetRunning = true) :
    (s'.state p).targetRunning = true ∨
      ∃ w, (s.thread.worker w).pc = .invoking (message p) ∧ s.mayLeave (.worker w) 0 ∧
        ((∃ k, l = .invoke w p k) ∨ ∃ k, l = .task w p k) := by
  rcases call_move h p with ⟨st, hst, hmove⟩
  rw [hst]
  cases hmove with
  | keep => exact Or.inl hrun
  | issue t _ hnew | inPlace hnew =>
    rw [hi.unborn hnew] at hrun
    cases hrun
  | enter w x m hl hw hx hm =>
    -- the message of a running target is not entered a second time
    subst hm
    have hent := (hi.taken hw hx).2.2.1
    have hstarted := CallState.hasStarted_of_running hrun
    rw [CallState.entered_of_hasStarted hstarted (CallState.kind_of_running hrun)] at hent
    cases hent
  | wait c k hl hside hk hc =>
    left
    rw [hc, CallState.running_wait] at hrun
    rw [CallState.running_wait, WaitCall.update_invoke hside]
    exact hrun
  | invoke w c k hl hside hne hw hexit hc hg =>
    rw [hc, CallState.running_wait] at hrun
    rcases WaitCall.running_kept hne hg hrun with hkept | hleft
    · exact Or.inl (CallState.running_wait.mpr hkept)
    · exact Or.inr ⟨w, hw, hexit hleft, Or.inl ⟨k, hl⟩⟩
  | future c k hl hside hk hc =>
    left
    rw [hc, CallState.running_future] at hrun
    rw [CallState.running_future, FutureCall.update_task hside]
    exact hrun
  | task w c k hl hside hne hw hexit hc hg =>
    rw [hc, CallState.running_future] at hrun
    rcases FutureCall.running_kept hne hg hrun with hkept | hleft
    · exact Or.inl (CallState.running_future.mpr hkept)
    · exact Or.inr ⟨w, hw, hexit hleft, Or.inr ⟨k, hl⟩⟩
  | leave pc hc =>
    rw [hc] at hrun
    cases hrun

theorem inProgram_worker {w : ℕ} : s.inProgram (.worker w) ↔
    ∃ m, (s.thread.worker w).pc = .invoking m ∧ (s.state m.id).targetRunning = true := by
  simp only [inProgram]
  cases (s.thread.worker w).pc <;> simp

/-- A program is left only by its worker, when it has nothing open. -/
theorem inProgram_of_step {ok : SysLabel V → Sys V → Prop} (hr : (sysLts V).ReachableWhen ok s)
    (hg : guard l s) {t : Tid} (ht : s.inProgram t) :
    (update l s).inProgram t ∨
      ∃ w i, t = .worker w ∧ s.mayLeave t 0 ∧
        ((∃ k, l = .invoke w i k) ∨ ∃ k, l = .task w i k) := by
  cases t with
  | client c => exact Or.inl trivial
  | worker w =>
    have hcalls := calls_of_reachable hr
    have heff := sys_effect hg
    rcases inProgram_worker.mp ht with ⟨m, hw, hrun⟩
    have hin := CallState.inInvoke_of_running hrun
    have hw' := invoking_of_inInvoke heff hcalls hin hw
    rcases running_of_step heff hcalls hrun with hkept | ⟨v, hv, hleave, hl⟩
    · exact Or.inl (inProgram_worker.mpr ⟨m, hw', hkept⟩)
    · -- only one worker is inside `Invoke` for the message
      have hhandler := ThreadState.handler_of_reachable (thread_of_reachable hr)
      have hvw := hhandler.unique v w (message m.id) m hv hw rfl
      subst hvw
      exact Or.inr ⟨v, m.id, rfl, hleave, hl⟩

/-- Who waits for a future has been handed it, and is inside its program. -/
def AwaitInv (s : Sys V) : Prop :=
  ∀ t i, s.awaiting t = some i → s.hasFuture i = true ∧ s.inProgram t

theorem awaiting_of_step (h : SysEffect l s s') {t : Tid} {i : ℕ} (hi : s'.awaiting t = some i) :
    s.awaiting t = some i ∨ s.mayAct t ∧ s.hasFuture i = true ∧
      s' = { s with awaiting := Function.update s.awaiting t (some i) } := by
  cases h with
  | get u j hl hact hfuture =>
    by_cases heq : t = u
    · subst heq
      have hij : j = i := by simpa using hi
      subst hij
      exact Or.inr ⟨hact, hfuture, rfl⟩
    · left
      simpa [heq] using hi
  | gotten u j hl hu =>
    by_cases heq : t = u
    · subst heq
      simp at hi
    · left
      simpa [heq] using hi
  | _ => exact Or.inl hi

theorem AwaitInv.step {ok : SysLabel V → Sys V → Prop} (hr : (sysLts V).ReachableWhen ok s)
    (hg : guard l s) (hi : AwaitInv s) : AwaitInv (update l s) := by
  have hcalls := calls_of_reachable hr
  have heff := sys_effect hg
  intro t i hawait
  rcases awaiting_of_step heff hawait with hold | ⟨hact, hfuture, heq⟩
  · rcases hi t i hold with ⟨hfuture, hprog⟩
    constructor
    · rcases hasFuture_iff.mp hfuture with ⟨c, hc, hret⟩
      rcases settled_of_step hg heff hcalls hc with ⟨c', hc', hret', -⟩
      exact hasFuture_iff.mpr ⟨c', hc', hret' hret⟩
    · rcases inProgram_of_step hr hg hprog with hkept | ⟨w, j, -, hleave, -⟩
      · exact hkept
      · -- the program would have to leave its target while it waits
        rw [hleave.2.1] at hold
        cases hold
  · rw [heq]
    exact ⟨hfuture, hact.1⟩

theorem await_of_reachable {ok : SysLabel V → Sys V → Prop} (h : (sysLts V).ReachableWhen ok s) :
    AwaitInv s := by
  refine h.induct ?_ ?_
  · rintro s rfl t i hi
    cases hi
  · intro l s hr hg _ hi
    exact hi.step hr hg

/-- A program that waits for a future of its own waits for itself exactly if
the message was accepted: it is queued behind the program. -/
theorem get_waits_iff (h : (sysLts V).ReachableWhen Joined s) {w i p : ℕ}
    (hawait : s.awaiting (.worker w) = some i) (hprog : s.programOf (.worker w) = some p)
    (hpi : (s.calls i).program = some p) :
    s.result i = none ↔ s.thread.dispatch i = .returned (message i) true := by
  have ht := thread_of_reachable h
  have hlife := ThreadState.life_of_reachable ht
  have hhist := ThreadState.history_of_reachable ht
  have hlink := dispatch_of_reachable h i
  rcases await_of_reachable h _ _ hawait with ⟨hfuture, hin⟩
  rcases hasFuture_iff.mp hfuture with ⟨c, hc, hret⟩
  rcases inProgram_worker.mp hin with ⟨m, hw, hrun⟩
  rw [hc] at hlink
  rw [result_eq_none_iff hlife hc]
  constructor
  · intro hnone
    rcases ThreadState.accepted_of_holds ht (hnone.2 hret) with ⟨n, hacc⟩
    rw [hacc] at hlink
    rw [hacc, hlink.1]
  · intro hacc
    have hmp : m.id = p := by
      simp only [programOf, hw] at hprog
      simpa using hprog
    have hi : i < s.ncalls := (birth_of_reachable h).lt (by simp [hc])
    -- the worker is inside the program, so it has not entered the message
    have hent := nested_of_reachable h i p hi hpi (hmp ▸ hrun)
    rw [hacc] at hlink
    have hidle : c.task = .idle := by
      rw [hc] at hent
      cases htask : c.task <;> simp_all [CallState.entered]
    refine ⟨hlink.2.2 hidle, fun _ => ?_⟩
    have hpushed : message i ∈ s.thread.pushed := (hhist.mem_pushed (message i)).mpr hacc
    rcases hhist.cases_of_pushed hpushed rfl with hq | hhand | hinv | hcl
    · exact Or.inl ⟨.normal, message i, hq, rfl⟩
    · -- nor does it hold another one
      have hth := hlife.workers.live w (live_of_invoking h hw)
      rw [ThreadState.hand_of_thread hth, hw] at hhand
      cases hhand
    · have hmem := (enter_of_reachable h i).mpr (List.mem_map_of_mem (f := (·.id)) hinv)
      rw [hent] at hmem
      cases hmem
    · rw [ThreadState.cleared_eq_nil (joined_thread h)] at hcl
      cases hcl

/-! ## The order of a program's calls -/

/-- Two calls of one program that have both been executed were executed in the
order of the program, unless a blocking call followed a future call. -/
theorem executed_in_order_iff (h : (sysLts V).ReachableWhen Joined s) {i j w p : ℕ} (hij : i < j)
    (hj : j < s.ncalls) (hwi : (s.calls i).caller = .worker w)
    (hwj : (s.calls j).caller = .worker w) (hpi : (s.calls i).program = some p)
    (hpj : (s.calls j).program = some p) (hsi : (s.state i).hasStarted = true)
    (hsj : (s.state j).hasStarted = true) :
    Precedes (s.started.map Start.call) i j ↔
      ¬ ((s.state i).kind = .future ∧ (s.state j).kind = .inPlace) := by
  have hnodup := (start_of_reachable h).nodup
  constructor
  · intro hgood ⟨hki, hkj⟩
    exact hgood.asymm hnodup (overtake_of_reachable h i j p hij hj hpi hpj hki hkj hsi)
  · intro hnot
    rcases local_of_reachable h i w (by omega) hwi with hki | hki
    · exact inline_of_reachable h i j hij hki hsj
    · rcases local_of_reachable h j w hj hwj with hkj | hkj
      · exact absurd ⟨hki, hkj⟩ hnot
      · -- two messages are started in the order in which they were queued
        have hi := (mem_messageStarts h).mpr ⟨hsi, by simp [hki]⟩
        have hj := (mem_messageStarts h).mpr ⟨hsj, by simp [hkj]⟩
        exact (starts_in_order h hij (hwi.trans hwj.symm) hi hj).sublist (messageStarts_sublist s)

/-- **The order of the calls of a program on the worker.** Two executed calls of
one program were executed in its order exactly if they are not a future call
followed by a blocking one; and a program that waits for a future of its own
waits for itself exactly if the message of that future was accepted. -/
theorem submission_order (h : (sysLts V).ReachableWhen Joined s) :
    (∀ i j w p, i < j → j < s.ncalls → (s.calls i).caller = .worker w →
        (s.calls j).caller = .worker w → (s.calls i).program = some p →
        (s.calls j).program = some p → (s.state i).hasStarted = true →
        (s.state j).hasStarted = true →
        (Precedes (s.started.map Start.call) i j ↔
          ¬ ((s.state i).kind = .future ∧ (s.state j).kind = .inPlace))) ∧
      ∀ w i p, s.awaiting (.worker w) = some i → s.programOf (.worker w) = some p →
        (s.calls i).program = some p →
        (s.result i = none ↔ s.thread.dispatch i = .returned (message i) true) :=
  ⟨fun _ _ _ _ hij hj hwi hwj hpi hpj hsi hsj =>
      executed_in_order_iff h hij hj hwi hwj hpi hpj hsi hsj,
    fun _ _ _ hawait hprog hpi => get_waits_iff h hawait hprog hpi⟩

/-- A function on the thread makes a future call, then a blocking one. -/
def overtakeRun : List (SysLabel ℤ) :=
  Run.create ++ [SysLabel.blockExecute 0 true] ++ Run.dispatch 0 ++ Run.take 0 ++ Run.start 0 ++
    [SysLabel.asyncInvokeFuture (.worker 0)] ++ Run.dispatch 1 ++
    [SysLabel.future 1 .dispatched, .future 1 .ret, .asyncInvoke (.worker 0) true,
      .inPlaceReturn 2 0]

/-- The rest of the run: the function returns, and the future call is executed. -/
def overtakenRun : List (SysLabel ℤ) :=
  Run.finish 0 0 ++ [SysLabel.thread (.invokeReturn 0 (message 0))] ++ Run.take 1 ++
    [SysLabel.task 0 1 .run]

theorem submission_order_run :
    ∃ s : Sys ℤ, (sysLts ℤ).ReachableWhen Joined s ∧
      ¬ Precedes (s.started.map Start.call) 1 2 := by
  obtain ⟨s, hr, hp⟩ := (sysLts ℤ).execWhen_reachable Joined rfl (overtakeRun ++ overtakenRun)
    (fun s => 2 < s.ncalls ∧ (s.calls 1).caller = .worker 0 ∧ (s.calls 2).caller = .worker 0 ∧
      (s.calls 1).program = some 0 ∧ (s.calls 2).program = some 0 ∧
      (s.state 1).hasStarted = true ∧ (s.state 2).hasStarted = true ∧
      (s.state 1).kind = .future ∧ (s.state 2).kind = .inPlace) (by decide)
  rcases of_decide_eq_true hp with ⟨hlt, h₁, h₂, hp₁, hp₂, hs₁, hs₂, hk₁, hk₂⟩
  have horder := (submission_order hr).1 1 2 0 0 (by decide) hlt h₁ h₂ hp₁ hp₂ hs₁ hs₂
  exact ⟨s, hr, fun hgood => horder.mp hgood ⟨hk₁, hk₂⟩⟩

/-- The future call of a program is executed behind the blocking call that came
after it, and a program that waits for it waits for itself. -/
theorem future_is_overtaken :
    (∃ s : Sys ℤ, (sysLts ℤ).ReachableWhen Joined s ∧ (s.calls 1).program = some 0 ∧
      (s.calls 2).program = some 0 ∧ s.started = [⟨0, 0⟩, ⟨0, 2⟩, ⟨1, 1⟩] ∧
      Precedes (s.started.map Start.call) 2 1) ∧
      ∃ s : Sys ℤ, (sysLts ℤ).ReachableWhen Joined s ∧ s.awaiting (.worker 0) = some 1 ∧
        s.programOf (.worker 0) = some 0 ∧ (s.calls 1).program = some 0 ∧ s.result 1 = none := by
  constructor
  · obtain ⟨s, hr, hp⟩ := (sysLts ℤ).execWhen_reachable Joined rfl (overtakeRun ++ overtakenRun)
      (fun s => (s.calls 1).program = some 0 ∧ (s.calls 2).program = some 0 ∧
        s.started = [⟨0, 0⟩, ⟨0, 2⟩, ⟨1, 1⟩]) (by decide)
    rcases of_decide_eq_true hp with ⟨h₁, h₂, hstarted⟩
    refine ⟨s, hr, h₁, h₂, hstarted, ?_⟩
    rw [hstarted]
    exact List.sublist_cons_self 0 [2, 1]
  · obtain ⟨s, hr, hp⟩ := (sysLts ℤ).execWhen_reachable Joined rfl
      (overtakeRun ++ [.get (.worker 0) 1])
      (fun s => s.awaiting (.worker 0) = some 1 ∧ s.programOf (.worker 0) = some 0 ∧
        (s.calls 1).program = some 0 ∧ s.result 1 = none) (by decide)
    exact ⟨s, hr, of_decide_eq_true hp⟩

end Sys

end AsyncSqlite
