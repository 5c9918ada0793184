import AsyncSqlite.Thread.Model
import AsyncSqlite.Lts.History
import Mathlib.Tactic.Common

/-!
# AsyncSqlite.Thread.Step — what one step of a `Thread` can do

`Effect s s'` lists the outcomes of a step with the branch of the source
already resolved: which guard held, which `if` was taken, what changed.
`step_effect` is the only place that unfolds `update`; every invariant of the
thread is proved by cases on `Effect`.
-/

namespace AsyncSqlite

namespace ThreadState

variable {cfg : Config} {l : ThreadLabel}

/-- A call of `DispatchDelegate` moves on without touching the queues. -/
inductive DispatchMove (cfg : Config) (l : ThreadLabel) (s : ThreadState) (m : DelegateMsg) :
    DispatchPc → Prop
  | rejectEarly : l = .dispatchDelegate m → s.dispatch m.id = .idle → s.exit = true →
      DispatchMove cfg l s m (.returned m false)
  | enter : l = .dispatchDelegate m → s.dispatch m.id = .idle → s.exit = false →
      DispatchMove cfg l s m (.entered m)
  | throw : l = .dispatchHasValue m → s.dispatch m.id = .entered m → s.thread = none →
      DispatchMove cfg l s m (.threw m)
  | check : s.dispatch m.id = .entered m → s.thread ≠ none →
      DispatchMove cfg l s m (.checked m)
  | reject : s.dispatch m.id = .checked m ∨ s.dispatch m.id = .waiting m →
      DispatchMove cfg l s m (.returned m false)
  | fault : s.dispatch m.id = .checked m → full cfg s → DispatchMove cfg l s m (.faulted m)
  | wait : s.dispatch m.id = .checked m → full cfg s → DispatchMove cfg l s m (.waiting m)

/-- The worker moves on without touching the queues or running an invoker. -/
inductive WorkerMove (l : ThreadLabel) (s : ThreadState) (w : ℕ) : WorkerPc → Prop
  | start : (s.worker w).pc = .starting → WorkerMove l s w .loop
  | leave : (s.worker w).pc = .loop → (s.worker w).selfExit = true → WorkerMove l s w .finished
  | lock : (s.worker w).pc = .loop → (s.worker w).selfExit = false → WorkerMove l s w .lock
  | sleep : (s.worker w).pc = .lock → s.highQueue = [] → s.normalQueue = [] →
      s.exit = false → WorkerMove l s w .asleep
  | quit : (s.worker w).pc = .lock → s.highQueue = [] → s.normalQueue = [] →
      s.exit = true → WorkerMove l s w .finished
  | wake : (s.worker w).pc = .asleep → WorkerMove l s w .lock
  | exitMsg (m : ThreadMsg) : (s.worker w).pc = .got m → m.target = none →
      m.id = .exitThread → WorkerMove l s w .finished
  | skip (m : ThreadMsg) : (s.worker w).pc = .got m → m.target = none →
      m.id ≠ .exitThread → WorkerMove l s w .loop
  | returned (m : DelegateMsg) : l = .invokeReturn w m → (s.worker w).pc = .invoking m →
      ¬ s.exiting w → (s.worker w).selfExit = false → WorkerMove l s w .loop
  | returnedExit (m : DelegateMsg) : l = .invokeReturn w m → (s.worker w).pc = .invoking m →
      ¬ s.exiting w → (s.worker w).selfExit = true → WorkerMove l s w .finished
  | threw (m : DelegateMsg) : l = .invokeThrow w m → (s.worker w).pc = .invoking m →
      ¬ s.exiting w → WorkerMove l s w .faulted

/-- The outcomes of one step. The label is recorded where the outcome is the
beginning of a control call or of a handler, or the end of `ExitThread`. -/
inductive Effect (cfg : Config) (l : ThreadLabel) (s : ThreadState) : ThreadState → Prop
  | stutter : Effect cfg l s s
  | beginCreate : l = .createThread → s.control = .idle → s.thread = none →
      Effect cfg l s { s with control := .createClear }
  | clearExit : s.control = .createClear →
      Effect cfg l s { s with exit := false, control := .createSpawn }
  | spawn : s.control = .createSpawn → Effect cfg l s s.spawn
  | started (w : ℕ) : s.control = .createStart w → (s.worker w).pc ≠ .starting →
      Effect cfg l s { s with control := .idle }
  | beginExit (t : Tid) : l = .exitThread t → s.control = .idle → s.thread ≠ none →
      s.mayExit t → Effect cfg l s { s with control := .exitPush t }
  | pushExit (t : Tid) : s.control = .exitPush t →
      Effect cfg l s { s.push .exit with exit := true, control := .exitJoin t }
  | join (t : Tid) (h : ℕ) : s.control = .exitJoin t → s.thread = some (some h) →
      t ≠ .worker h → (s.worker h).pc = .finished →
      Effect cfg l s { s with thread := some none, control := .exitReset t }
  | detach (h : ℕ) : s.control = .exitJoin (.worker h) → s.thread = some (some h) →
      Effect cfg l s (s.detach h)
  | unjoinable (t : Tid) : s.control = .exitJoin t → (∀ h, s.thread ≠ some (some h)) →
      Effect cfg l s { s with control := .exitReset t }
  | reset (t : Tid) : l = .exitReset t → s.control = .exitReset t → Effect cfg l s s.exitReset
  | dispatch (m : DelegateMsg) (pc : DispatchPc) : DispatchMove cfg l s m pc →
      Effect cfg l s (s.setDispatch m.id pc)
  | accept (m : DelegateMsg) :
      s.dispatch m.id = .checked m ∨ s.dispatch m.id = .waiting m → s.exit = false →
      (cfg.maxQueueSize = 0 ∨ s.queueSize < cfg.maxQueueSize) → Effect cfg l s (s.accept m)
  | move (w : ℕ) (pc : WorkerPc) : WorkerMove l s w pc → Effect cfg l s (s.setPc w pc)
  | popHigh (w : ℕ) (m : ThreadMsg) (rest : List ThreadMsg) : (s.worker w).pc = .lock →
      s.highQueue = m :: rest → Effect cfg l s { s.take w m with highQueue := rest }
  | popNormal (w : ℕ) (m : ThreadMsg) (rest : List ThreadMsg) : (s.worker w).pc = .lock →
      s.highQueue = [] → s.normalQueue = m :: rest →
      Effect cfg l s { s.take w m with normalQueue := rest }
  | invoke (w : ℕ) (m : ThreadMsg) (d : DelegateMsg) : l = .processSwitch w m →
      (s.worker w).pc = .got m → m.target = some d → Effect cfg l s (s.invoke w d)

/-! ## Resolving the branches -/

theorem exit_eq_false {s : ThreadState} (h : ¬ s.exit = true) : s.exit = false := by
  simpa using h

/-- Past the wait or the capacity test: a clear `m_exit` and room lead to the
push, anything else to a rejection. -/
theorem dispatchPush_effect {s : ThreadState} {m : DelegateMsg}
    (hm : s.dispatch m.id = .checked m ∨ s.dispatch m.id = .waiting m)
    (hroom : ¬ full cfg s ∨ hasSpace cfg s) : Effect cfg l s (s.dispatchPush m) := by
  unfold dispatchPush
  split
  · exact .dispatch m _ (.reject hm)
  · rename_i hexit
    refine .accept m hm (exit_eq_false hexit) ?_
    rcases hroom with hfull | hspace | hexit'
    · unfold full at hfull
      omega
    · exact Or.inr hspace
    · exact absurd hexit' hexit

theorem dispatchLocked_effect {s : ThreadState} {m : DelegateMsg}
    (hm : s.dispatch m.id = .checked m) : Effect cfg l s (s.dispatchLocked cfg m) := by
  unfold dispatchLocked
  split
  · rename_i hfull
    cases cfg.fullPolicy with
    | drop => exact .dispatch m _ (.reject (Or.inl hm))
    | fault => exact .dispatch m _ (.fault hm hfull)
    | timeout =>
      dsimp only
      split
      · rename_i hspace
        exact dispatchPush_effect (Or.inl hm) (Or.inr hspace)
      · exact .dispatch m _ (.wait hm hfull)
  · rename_i hfull
    exact dispatchPush_effect (Or.inl hm) (Or.inl hfull)

theorem processTake_effect {s : ThreadState} {w : ℕ} (hw : (s.worker w).pc = .lock) :
    Effect cfg l s (s.processTake w) := by
  unfold processTake
  split
  · rename_i m rest hhigh
    exact .popHigh w m rest hw hhigh
  · rename_i m rest hhigh hnormal
    exact .popNormal w m rest hw hhigh hnormal
  · rename_i hhigh hnormal
    by_cases hexit : s.exit = true
    · rw [if_pos hexit]
      exact .move w _ (.quit hw hhigh hnormal hexit)
    · rw [if_neg hexit]
      exact .move w _ (.sleep hw hhigh hnormal (exit_eq_false hexit))

theorem processSwitch_effect {s : ThreadState} {w : ℕ} {m : ThreadMsg}
    (hl : l = .processSwitch w m) (hw : (s.worker w).pc = .got m) :
    Effect cfg l s (s.processSwitch w m) := by
  unfold processSwitch
  split
  · rename_i d hd
    exact .invoke w m d hl hw hd
  · rename_i hd
    by_cases hid : m.id = .exitThread
    · rw [if_pos hid]
      exact .move w _ (.exitMsg m hw hd hid)
    · rw [if_neg hid]
      exact .move w _ (.skip m hw hd hid)

theorem exitJoin_effect {s : ThreadState} {t : Tid} (hc : s.control = .exitJoin t)
    (hready : s.joinReady t) : Effect cfg l s (s.exitJoin t) := by
  unfold exitJoin
  split
  · rename_i h hth
    by_cases ht : t = .worker h
    · subst ht
      rw [if_pos rfl]
      exact .detach h hc hth
    · rw [if_neg ht]
      have hfin : (s.worker h).pc = .finished := by
        simp only [joinReady, hth] at hready
        exact hready.resolve_left ht
      exact .join t h hc hth ht hfin
  · rename_i hth
    exact .unjoinable t hc hth

/-- Every step has one of the listed outcomes. -/
theorem step_effect (cfg : Config) {l : ThreadLabel} {s : ThreadState} (hg : guard l s) :
    Effect cfg l s (update cfg l s) := by
  cases l with
  | createThread =>
    by_cases hth : s.thread.isNone
    · simp only [update, hth, if_true]
      exact .beginCreate rfl hg (Option.isNone_iff_eq_none.mp hth)
    · simp only [update, hth]
      exact .stutter
  | createClear => exact .clearExit hg
  | createSpawn => exact .spawn hg
  | createStart w => exact .started w hg.1 hg.2
  | exitThread t =>
    by_cases hth : s.thread.isNone
    · simp only [update, hth, if_true]
      exact .stutter
    · simp only [update, hth]
      refine .beginExit t rfl hg.1 ?_ hg.2
      intro hnone
      exact hth (by simp [hnone])
  | exitPush t => exact .pushExit t hg
  | exitJoin t => exact exitJoin_effect hg.1 hg.2
  | exitReset t => exact .reset t rfl hg
  | dispatchDelegate m =>
    by_cases hexit : s.exit = true
    · simp only [update, hexit, if_true]
      exact .dispatch m _ (.rejectEarly rfl hg hexit)
    · simp only [update, hexit]
      exact .dispatch m _ (.enter rfl hg (exit_eq_false hexit))
  | dispatchHasValue m =>
    by_cases hth : s.thread.isNone
    · simp only [update, hth, if_true]
      exact .dispatch m _ (.throw rfl hg (Option.isNone_iff_eq_none.mp hth))
    · simp only [update, hth]
      refine .dispatch m _ (.check hg ?_)
      intro hnone
      exact hth (by simp [hnone])
  | dispatchLocked m => exact dispatchLocked_effect hg
  | dispatchWake m =>
    simp only [update]
    split
    · rename_i hspace
      exact dispatchPush_effect (Or.inr hg) (Or.inr hspace)
    · exact .stutter
  | dispatchTimeout m =>
    simp only [update]
    split
    · rename_i hspace
      exact dispatchPush_effect (Or.inr hg) (Or.inr hspace)
    · exact .dispatch m _ (.reject (Or.inr hg))
  | processStart w => exact .move w _ (.start hg)
  | processLoop w =>
    by_cases hse : (s.worker w).selfExit = true
    · simp only [update, hse, if_true]
      exact .move w _ (.leave hg hse)
    · simp only [update, hse]
      exact .move w _ (.lock hg (by simpa using hse))
  | processTake w => exact processTake_effect hg
  | processWake w => exact .move w _ (.wake hg)
  | processSwitch w m => exact processSwitch_effect rfl hg
  | invokeReturn w m =>
    by_cases hse : (s.worker w).selfExit = true
    · simp only [update, hse, if_true]
      exact .move w _ (.returnedExit m rfl hg.1 hg.2 hse)
    · simp only [update, hse]
      exact .move w _ (.returned m rfl hg.1 hg.2 (by simpa using hse))
  | invokeThrow w m => exact .move w _ (.threw m rfl hg.1 hg.2)

end ThreadState

end AsyncSqlite
