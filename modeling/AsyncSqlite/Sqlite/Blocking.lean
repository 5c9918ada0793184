import AsyncSqlite.Sqlite.Calls

/-!
# AsyncSqlite.Sqlite.Blocking — results about blocking calls

Every result is about any number of callers, the worker, and `CreateThread` and
`ExitThread` on any thread, in every interleaving and with every choice of
timeouts.

* `call_confined`: the target of a blocking call is started at most once, and
  never runs or starts behind the return of the call;
* `empty_result_had_no_effect`: in runs without a late timeout, an empty result
  means that the target did not and will not run (`late_timeout_runs_target` is
  a run with one);
* `caller_released`: in runs whose timeouts do not meet the target, no caller
  stays behind the message lock (`timed_out_caller_blocked` is a run with one).
-/

namespace AsyncSqlite

universe u

namespace Sys

variable {V : Type u} {s s' : Sys V}

/-! ## The call outlives its target -/

/-- A blocking call is a run of `waitLts`. -/
theorem wait_of_reachable {ok : SysLabel V → Sys V → Prop} (h : (sysLts V).ReachableWhen ok s)
    {i : ℕ} {c : WaitCall V} (hc : s.state i = .wait c) : (waitLts V).Reachable c := by
  refine wait_reachable ?_ (fun _ => trivial) h hc
  intro l s _
  cases l <;> simp [OnWait, Lts.always]

theorem wait_steps_of_steps {ok : SysLabel V → Sys V → Prop} (hr : (sysLts V).Reachable s)
    (hrun : (sysLts V).StepsWhen ok s s') {i : ℕ} {c : WaitCall V} (hc : s.state i = .wait c) :
    ∃ c', s'.state i = .wait c' ∧ (waitLts V).Steps c c' := by
  refine wait_steps ?_ (fun _ => trivial) hr hrun hc
  intro l s _
  cases l <;> simp [OnWait, Lts.always]

/-- **A blocking call never runs behind the caller's back.** The target is
started at most once. Once `operator()` has been left, the target is not
executing, and in no later state is it executing or has it been started again. -/
theorem call_confined (h : (sysLts V).Reachable s) {i : ℕ} {c : WaitCall V}
    (hc : s.state i = .wait c) :
    c.starts ≤ 1 ∧
      (c.HasLeft → ¬ c.Executing ∧ ∀ s', (sysLts V).Steps s s' →
        ∃ c', s'.state i = .wait c' ∧ ¬ c'.Executing ∧ c'.starts = c.starts) := by
  have hw := wait_of_reachable h hc
  have hlock := WaitCall.lock_of_reachable hw
  refine ⟨hlock.starts_le, fun hleft => ⟨hlock.not_executing hleft, fun s' hrun => ?_⟩⟩
  rcases wait_steps_of_steps h hrun hc with ⟨c', hc', hsteps⟩
  rcases WaitCall.left_steps hw hsteps hleft with ⟨hleft', hstarts⟩
  have hlock' := WaitCall.lock_of_reachable (hw.steps hsteps)
  exact ⟨c', hc', hlock'.not_executing hleft', hstarts⟩

/-- A caller times out while its message is queued, and the worker takes the
message afterwards. -/
def timeoutRun : List (SysLabel ℤ) :=
  Run.create ++ [SysLabel.asyncInvoke (.client 0) false] ++ Run.dispatch 0 ++
    [SysLabel.wait 0 (.dispatched true), .wait 0 .waitTimeout] ++ Run.leave 0 false false none ++
    Run.take 0

theorem call_confined_run :
    ∃ s : Sys ℤ, (sysLts ℤ).Reachable s ∧ ∃ c, s.state 0 = .wait c ∧ c.starts ≤ 1 ∧
      ¬ c.Executing := by
  obtain ⟨s, hr, hp⟩ := (sysLts ℤ).execWhen_reachable Lts.always rfl timeoutRun
    (fun s => s.state 0 = .wait ⟨false, .returned false none, .entered, none, false, false, false,
      none, 0, []⟩) (by decide)
  have hc := of_decide_eq_true hp
  have hsafe := call_confined hr hc
  exact ⟨s, hr, _, hc, hsafe.1, (hsafe.2 (Or.inl ⟨false, none, rfl⟩)).1⟩

/-! ## Empty results -/

/-- `SQLITE_BUSY`. -/
def sqliteBusy : ℤ := 5

/-- The end of the blocking helper: an empty optional becomes `failure`, which
is `SQLITE_BUSY` for the functions that return a result code. -/
def helperResult (failure : V) : Option V → V
  | some v => v
  | none => failure

/-- The timeouts of the call come in time, and its target does not throw. -/
def InTime (l : WaitLabel V) (c : WaitCall V) : Prop := WaitCall.OnTime l c ∧ WaitCall.NoThrow l c

/-- **A failed blocking call had no effect**, in runs whose timeouts come in
time: an empty result means that the target was not started and never will be,
and a value is what the only run of the target returned. -/
theorem empty_result_had_no_effect [Inhabited V] (h : (sysLts V).ReachableWhen (OnWait InTime) s)
    {i : ℕ} {c : WaitCall V} (hc : s.state i = .wait c) {success : Bool} {retVal : Option V}
    (hret : c.caller = .returned success retVal) :
    (WaitCall.asyncInvoke success retVal = none → c.starts = 0 ∧
      ∀ s', (sysLts V).Steps s s' → ∃ c', s'.state i = .wait c' ∧ c'.starts = 0) ∧
      ∀ v, WaitCall.asyncInvoke success retVal = some v → c.starts = 1 ∧ c.produced = [v] := by
  have hw : (waitLts V).ReachableWhen InTime c :=
    wait_reachable (fun _ _ h => h) (fun _ => ⟨trivial, trivial⟩) h hc
  have hlock := WaitCall.lock_of_reachable hw
  refine ⟨fun hnone => ?_, fun v hv => (WaitCall.report_of_reachable hw).value hlock hret hv⟩
  have hzero := (WaitCall.onTime_of_reachable hw).empty hlock hret hnone
  refine ⟨hzero, fun s' hrun => ?_⟩
  rcases wait_steps_of_steps h.reachable hrun hc with ⟨c', hc', hsteps⟩
  have hleft := WaitCall.left_steps hw.reachable hsteps (Or.inl ⟨success, retVal, hret⟩)
  exact ⟨c', hc', hleft.2.trans hzero⟩

instance [DecidableEq V] (l : WaitLabel V) (c : WaitCall V) : Decidable (InTime l c) :=
  inferInstanceAs (Decidable (_ ∧ _))

theorem empty_result_run :
    ∃ s : Sys ℤ, (sysLts ℤ).ReachableWhen (OnWait InTime) s ∧ ∃ c, s.state 0 = .wait c ∧
      c.caller = .returned false none ∧ c.starts = 0 := by
  obtain ⟨s, hr, hp⟩ := (sysLts ℤ).execWhen_reachable (OnWait InTime) rfl timeoutRun
    (fun s => s.state 0 = .wait ⟨false, .returned false none, .entered, none, false, false, false,
      none, 0, []⟩) (by decide)
  have hc := of_decide_eq_true hp
  exact ⟨s, hr, _, hc, rfl, ((empty_result_had_no_effect hr hc rfl).1 rfl).1⟩

/-- The wait times out while the worker is inside the target. -/
def lateRun : List (SysLabel ℤ) :=
  Run.create ++ [SysLabel.asyncInvoke (.client 0) false] ++ Run.dispatch 0 ++
    [SysLabel.wait 0 (.dispatched true)] ++ Run.take 0 ++ Run.start 0 ++
      [SysLabel.wait 0 .waitTimeout]

/-- A late timeout: the target runs once and returns `SQLITE_OK`, and the caller
is told `SQLITE_BUSY`. -/
theorem late_timeout_runs_target :
    ∃ s : Sys ℤ, (sysLts ℤ).ReachableWhen (OnWait WaitCall.NoThrow) s ∧
      ∃ c, s.state 0 = .wait c ∧ c.caller = .returned false none ∧
        helperResult sqliteBusy (WaitCall.asyncInvoke false none) = sqliteBusy ∧
        WaitCall.asyncInvoke false (none : Option ℤ) = none ∧ c.starts = 1 ∧ c.produced = [0] := by
  obtain ⟨s, hr, hp⟩ := (sysLts ℤ).execWhen_reachable (OnWait WaitCall.NoThrow) rfl
    (lateRun ++ Run.finish 0 0 ++ Run.leave 0 false false none)
    (fun s => s.state 0 = .wait ⟨false, .returned false none, .done, none, true, false, true,
      some 0, 1, [0]⟩) (by decide)
  exact ⟨s, hr, _, of_decide_eq_true hp, rfl, rfl, rfl, rfl, rfl⟩

/-! ## Released callers -/

/-- **A timed-out caller is released**, in runs whose timeouts do not meet the
target on its way or running: no caller whose wait has ended is blocked behind
a message lock that the worker holds across the target. -/
theorem caller_released (h : (sysLts V).ReachableWhen (OnWait WaitCall.Prompt) s) {i : ℕ}
    {c : WaitCall V} (hc : s.state i = .wait c) : ¬ c.Blocked := by
  have hw : (waitLts V).ReachableWhen WaitCall.Prompt c :=
    wait_reachable (fun _ _ h => h) (fun _ => trivial) h hc
  exact WaitCall.not_blocked hw

theorem caller_released_run :
    ∃ s : Sys ℤ, (sysLts ℤ).ReachableWhen (OnWait WaitCall.Prompt) s ∧ ∃ c, s.state 0 = .wait c ∧
      c.caller = .returned false none ∧ ¬ c.Blocked := by
  obtain ⟨s, hr, hp⟩ := (sysLts ℤ).execWhen_reachable (OnWait WaitCall.Prompt) rfl timeoutRun
    (fun s => s.state 0 = .wait ⟨false, .returned false none, .entered, none, false, false, false,
      none, 0, []⟩) (by decide)
  have hc := of_decide_eq_true hp
  exact ⟨s, hr, _, hc, rfl, caller_released hr hc⟩

/-- The caller has timed out and is blocked until the target returns. -/
theorem timed_out_caller_blocked :
    ∃ s : Sys ℤ, (sysLts ℤ).Reachable s ∧ ∃ c, s.state 0 = .wait c ∧ c.Blocked := by
  obtain ⟨s, hr, hp⟩ := (sysLts ℤ).execWhen_reachable Lts.always rfl lateRun
    (fun s => s.state 0 = .wait ⟨false, .locking false, .running, some .worker, false, true, false,
      none, 1, []⟩) (by decide)
  exact ⟨s, hr, _, of_decide_eq_true hp, rfl, rfl, rfl⟩

end Sys

end AsyncSqlite
