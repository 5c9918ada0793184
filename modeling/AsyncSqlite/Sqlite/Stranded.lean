import AsyncSqlite.Thread.Drain
import AsyncSqlite.Sqlite.Calls

/-!
# AsyncSqlite.Sqlite.Stranded — callers left behind by an exit

`ExitThread` ends by clearing the queues. Behind a join they are empty. A
worker that exits itself clears them while they may hold the messages of
callers that wait on a semaphore nobody is left to signal.

`no_stranded_caller`: where every clear finds only messages whose callers have ended
their wait, no caller is stranded. `selfExit_strands_caller` is a run where a clear
finds another one.
-/

namespace AsyncSqlite

universe u

namespace Sys

variable {V : Type u} {l : SysLabel V} {s s' : Sys V}

/-- The caller of blocking call `i` waits for a message that is in no queue and
in no worker's hand, and whose target was not invoked. -/
def Stranded (s : Sys V) (i : ℕ) : Prop :=
  ∃ c, s.state i = .wait c ∧ c.caller = .waiting ∧ c.signaled = false ∧ c.invoke = .idle ∧
    message i ∉ s.queuedMessages ∧ message i ∉ s.thread.hand

/-- The call, if it is a blocking one, waits no more. -/
def callerDone : CallState V → Prop
  | .wait c => c.WaitOver
  | _ => True

instance [DecidableEq V] (st : CallState V) : Decidable (callerDone st) := by
  cases st <;> simp only [callerDone, WaitCall.WaitOver] <;> infer_instance

/-- The last critical section of `ExitThread` clears no message whose caller
still waits. -/
def CalmExit : SysLabel V → Sys V → Prop
  | .thread (.exitReset _), s => ∀ m ∈ s.queuedMessages, callerDone (s.state m.id)
  | _, _ => True

instance [DecidableEq V] (l : SysLabel V) (s : Sys V) : Decidable (CalmExit l s) := by
  induction l using SysLabel.casesOn with
  | thread k => induction k using ThreadLabel.casesOn <;> dsimp only [CalmExit] <;> infer_instance
  | _ => exact isTrue trivial

/-- The callers of the messages that an exit destroyed have ended their wait. -/
def ClearedInv (s : Sys V) : Prop := ∀ m ∈ s.thread.cleared, callerDone (s.state m.id)

/-- A caller whose wait is over stays so. -/
theorem callerDone_step (h : SysEffect l s s') (hcalls : CallsInv s) {i : ℕ}
    (hborn : s.state i ≠ .unborn) (hi : callerDone (s.state i)) : callerDone (s'.state i) := by
  cases hc' : s'.state i with
  | wait c' =>
    rcases wait_born h hc' with ⟨c, hc⟩ | ⟨rfl, -⟩
    · rw [hc] at hi
      rcases wait_step h hcalls hc with hsame | ⟨k, -, hg, hnew⟩
      · rw [hsame] at hc'
        rw [← hc']
        exact hi
      · rw [hnew] at hc'
        rw [← hc']
        exact WaitCall.WaitOver.step hg.1 hi
    · exact absurd (hcalls.unborn rfl) hborn
  | _ => trivial

theorem mem_pushed_of_cleared (hhist : s.thread.HistoryInv) {m : DelegateMsg}
    (hm : m ∈ s.thread.cleared) : m ∈ s.thread.pushed := by
  rcases List.mem_map.mp hm with ⟨⟨x, r⟩, hx, rfl⟩
  exact hhist.fifo.mem_of_removed (List.mem_map_of_mem (List.mem_filter.mp hx).1)

theorem ClearedInv.step (h : SysEffect l s s') (hok : CalmExit l s) (hcalls : CallsInv s)
    (hi : ClearedInv s) : ClearedInv s' := by
  -- what is cleared now was cleared before, or is cleared by this step
  have hcleared : ∀ m ∈ s'.thread.cleared, m ∈ s.thread.pushed ∧ callerDone (s.state m.id) := by
    intro m hm
    have hold : m ∈ s.thread.cleared → m ∈ s.thread.pushed ∧ callerDone (s.state m.id) :=
      fun hm => ⟨mem_pushed_of_cleared hcalls.history hm, hi m hm⟩
    rcases thread_step h with hsame | ⟨k, rfl, hg, -, hupd⟩
    · rw [hsame] at hm
      exact hold hm
    · rw [hupd] at hm
      rcases ThreadState.cleared_of_step (ThreadState.step_effect sqliteConfig hg) with
        hsame | ⟨t, rfl, -, hnew⟩
      · rw [hsame] at hm
        exact hold hm
      · rw [hnew] at hm
        rcases List.mem_append.mp hm with hm | hm
        · exact hold hm
        · exact ⟨mem_pushed_of_queued hcalls.history hm, hok m hm⟩
  intro m hm
  rcases hcleared m hm with ⟨hpushed, hdone⟩
  exact callerDone_step h hcalls (born_of_pushed hcalls.history hcalls.dispatch hpushed).2 hdone

theorem cleared_of_reachable (h : (sysLts V).ReachableWhen CalmExit s) : ClearedInv s := by
  refine h.induct ?_ ?_
  · rintro s rfl m hm
    cases hm
  · intro l s hr hg hok hi
    exact hi.step (sys_effect hg) hok (calls_of_reachable hr)

/-- **No blocked caller is stranded**, in runs whose exits clear no message of a
caller that still waits: a caller waits on an unset semaphore only while its
message is queued, in the worker's hand, or being invoked. -/
theorem no_stranded_caller (h : (sysLts V).ReachableWhen CalmExit s) (i : ℕ) : ¬ Stranded s i := by
  rintro ⟨c, hc, hwait, -, hidle, hqueue, hhand⟩
  have hcalls := calls_of_reachable h
  have hlink := hcalls.dispatch i
  rw [hc] at hlink
  rcases hlink.wait_sent (by simp [hwait]) (by simp [hwait]) with ⟨ok, hret, hok⟩
  rw [hok hwait] at hret
  have hpushed : message i ∈ s.thread.pushed := (hcalls.history.mem_pushed (message i)).mpr hret
  -- an accepted message is in one of four places
  rcases hcalls.history.cases_of_pushed hpushed rfl with hq | hh | hinv | hcl
  · exact hqueue (List.mem_append_right _ hq)
  · exact hhand hh
  · have hent := (hcalls.enter i).mpr (List.mem_map_of_mem (f := (·.id)) hinv)
    rw [hc] at hent
    simp [CallState.entered, hidle] at hent
  · have hdone := cleared_of_reachable h (message i) hcl
    rw [show s.state (message i).id = .wait c from hc] at hdone
    exact hdone.2 hwait

/-- Client 0 runs a function on the thread; client 1 waits without a timeout for
a message behind it; the function calls `ExitThread`. -/
def selfExitRun : List (SysLabel ℤ) :=
  Run.create ++ [SysLabel.blockExecute 0 true] ++ Run.dispatch 0 ++
    [SysLabel.wait 0 (.dispatched true)] ++
    Run.take 0 ++ Run.start 0 ++ [SysLabel.asyncInvoke (.client 1) true] ++ Run.dispatch 1 ++
    [SysLabel.wait 1 (.dispatched true), .thread (.exitThread (.worker 0)),
      .thread (.exitPush (.worker 0)), .thread (.exitJoin (.worker 0))]

/-- The worker has finished, the queues are cleared, and client 1 still waits. -/
theorem selfExit_strands_caller :
    ∃ s : Sys ℤ, (sysLts ℤ).Reachable s ∧ s.thread.thread = none ∧ s.thread.queueSize = 0 ∧
      (s.thread.worker 0).pc = .finished ∧ Stranded s 1 := by
  obtain ⟨s, hr, hp⟩ := (sysLts ℤ).execWhen_reachable Lts.always rfl
    (selfExitRun ++ [.thread (.exitReset (.worker 0))] ++ Run.finish 0 0 ++
      [.thread (.invokeReturn 0 (message 0))])
    (fun s => s.thread.thread = none ∧ s.thread.queueSize = 0 ∧
      (s.thread.worker 0).pc = .finished ∧
      s.state 1 = .wait ⟨true, .waiting, .idle, none, false, true, false, none, 0, []⟩ ∧
      message 1 ∉ s.queuedMessages ∧ message 1 ∉ s.thread.hand) (by decide)
  rcases of_decide_eq_true hp with ⟨hth, hsize, hfin, hc, hq, hh⟩
  exact ⟨s, hr, hth, hsize, hfin, _, hc, rfl, rfl, rfl, hq, hh⟩

/-- Before the queues are cleared nobody is stranded. -/
theorem no_stranded_caller_run :
    ∃ s : Sys ℤ, (sysLts ℤ).ReachableWhen CalmExit s ∧ s.queuedMessages = [message 1] ∧
      s.thread.control = .exitReset (.worker 0) ∧ ¬ Stranded s 1 := by
  obtain ⟨s, hr, hp⟩ := (sysLts ℤ).execWhen_reachable CalmExit rfl selfExitRun
    (fun s => s.queuedMessages = [message 1] ∧ s.thread.control = .exitReset (.worker 0))
    (by decide)
  rcases of_decide_eq_true hp with ⟨hq, hcon⟩
  exact ⟨s, hr, hq, hcon, no_stranded_caller hr 1⟩

end Sys

end AsyncSqlite
