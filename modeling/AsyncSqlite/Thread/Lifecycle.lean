import AsyncSqlite.Thread.Step
import Mathlib.Tactic.Common

/-!
# AsyncSqlite.Thread.Lifecycle — one live worker at a time

Invariants of the life cycle of a `Thread`, over every interleaving of
`CreateThread`, `ExitThread`, the producers and the workers:

* a worker that runs `Process` and has not exited itself is the thread that
  `m_thread` names (`LifeInv.live`), so two of them are one (`live_unique`);
* `m_thread` and `m_exit` are determined by the control call in progress
  (`ControlInv`);
* a worker inside `ExitThread` is inside a handler (`CallerInv`);
* where no handler exits its own thread, every worker that ran before the
  current one has finished (`Joined`).
-/

namespace AsyncSqlite

namespace ThreadState

variable {cfg : Config} {l : ThreadLabel} {s s' : ThreadState}

@[simp] theorem notifyOne_selfExit (f : ℕ → Worker) (w : ℕ) :
    (notifyOne f w).selfExit = (f w).selfExit := by
  unfold notifyOne
  split <;> rfl

/-- `notify_one` only moves a sleeper back to the mutex. -/
@[simp] theorem notifyOne_pc (f : ℕ → Worker) (w : ℕ) :
    (notifyOne f w).pc = if (f w).pc = .asleep then .lock else (f w).pc := by
  unfold notifyOne
  split <;> rfl

/-- Being at a point other than the wait on `m_cv` and the mutex is not
affected by a notification. -/
theorem notifyOne_pc_eq {f : ℕ → Worker} {w : ℕ} {pc : WorkerPc} (ha : pc ≠ .asleep)
    (hl : pc ≠ .lock) : (notifyOne f w).pc = pc ↔ (f w).pc = pc := by
  rw [notifyOne_pc]
  split
  · rename_i hw
    simp [hw, Ne.symm ha, Ne.symm hl]
  · rfl

@[simp] theorem setPc_pc (s : ThreadState) (v w : ℕ) (pc : WorkerPc) :
    ((s.setPc v pc).worker w).pc = if w = v then pc else (s.worker w).pc := by
  by_cases h : w = v
  · subst h
    simp [setPc, setWorker]
  · simp [setPc, setWorker, h]

@[simp] theorem take_pc (s : ThreadState) (v w : ℕ) (m : ThreadMsg) :
    ((s.take v m).worker w).pc = if w = v then .got m else (s.worker w).pc :=
  setPc_pc s v w (.got m)

@[simp] theorem invoke_pc (s : ThreadState) (v w : ℕ) (m : DelegateMsg) :
    ((s.invoke v m).worker w).pc = if w = v then .invoking m else (s.worker w).pc :=
  setPc_pc s v w (.invoking m)

@[simp] theorem spawn_pc (s : ThreadState) (w : ℕ) :
    (s.spawn.worker w).pc = if w = s.spawned then .starting else (s.worker w).pc := by
  by_cases h : w = s.spawned
  · subst h
    simp [spawn, setWorker]
  · simp [spawn, setWorker, h]

@[simp] theorem detach_pc (s : ThreadState) (h w : ℕ) :
    ((s.detach h).worker w).pc = (s.worker w).pc := by
  by_cases heq : w = h
  · subst heq
    simp [detach, setWorker]
  · simp [detach, setWorker, heq]

theorem detach_selfExit (s : ThreadState) (h w : ℕ) (hse : (s.worker w).selfExit = true) :
    ((s.detach h).worker w).selfExit = true := by
  by_cases heq : w = h
  · subst heq
    simp [detach, setWorker]
  · simpa [detach, setWorker, heq] using hse

@[simp] theorem setPc_selfExit (s : ThreadState) (v w : ℕ) (pc : WorkerPc) :
    ((s.setPc v pc).worker w).selfExit = (s.worker w).selfExit := by
  by_cases h : w = v
  · subst h
    simp [setPc, setWorker]
  · simp [setPc, setWorker, h]

/-! ## The outcomes for one worker -/

/-- What one step does to worker `w`: the last index is where the worker is
then. -/
inductive PcMove (l : ThreadLabel) (s s' : ThreadState) (w : ℕ) : WorkerPc → Prop
  | keep {pc : WorkerPc} : (s.worker w).pc = pc → PcMove l s s' w pc
  | notify : (s.worker w).pc = .asleep → PcMove l s s' w .lock
  | spawn : w = s.spawned → s' = s.spawn → PcMove l s s' w .starting
  | move {pc : WorkerPc} : WorkerMove l s w pc → s' = s.setPc w pc → PcMove l s s' w pc
  | popHigh {m : ThreadMsg} {rest : List ThreadMsg} : (s.worker w).pc = .lock →
      s.highQueue = m :: rest → s' = { s.take w m with highQueue := rest } →
      PcMove l s s' w (.got m)
  | popNormal {m : ThreadMsg} {rest : List ThreadMsg} : (s.worker w).pc = .lock →
      s.highQueue = [] → s.normalQueue = m :: rest →
      s' = { s.take w m with normalQueue := rest } → PcMove l s s' w (.got m)
  | invoke {x : ThreadMsg} {m : DelegateMsg} : l = .processSwitch w x →
      (s.worker w).pc = .got x → x.target = some m → s' = s.invoke w m →
      PcMove l s s' w (.invoking m)

/-- Every step makes one of the listed moves on each worker. -/
theorem pc_of_step (h : Effect cfg l s s') (w : ℕ) : PcMove l s s' w (s'.worker w).pc := by
  cases h with
  | stutter | beginCreate | clearExit | started | beginExit | join | unjoinable | dispatch
  | reset => exact .keep rfl
  | spawn =>
    rw [spawn_pc]
    split
    · rename_i heq
      exact .spawn heq rfl
    · exact .keep rfl
  | detach h =>
    rw [detach_pc]
    exact .keep rfl
  | pushExit | accept =>
    show PcMove l s _ w (notifyOne s.worker w).pc
    rw [notifyOne_pc]
    split
    · rename_i hw
      exact .notify hw
    · exact .keep rfl
  | move v pc hm =>
    rw [setPc_pc]
    split
    · rename_i heq
      subst heq
      exact .move hm rfl
    · exact .keep rfl
  | popHigh v m rest hv hh =>
    rw [take_pc]
    split
    · rename_i heq
      subst heq
      exact .popHigh hv hh rfl
    · exact .keep rfl
  | popNormal v m rest hv hh hn =>
    rw [take_pc]
    split
    · rename_i heq
      subst heq
      exact .popNormal hv hh hn rfl
    · exact .keep rfl
  | invoke v x m hlab hv hx =>
    rw [invoke_pc]
    split
    · rename_i heq
      subst heq
      exact .invoke hlab hv hx rfl
    · exact .keep rfl

/-! ## Workers -/

/-- Worker `w` runs `Process` and has not exited itself. -/
def Live (s : ThreadState) (w : ℕ) : Prop :=
  (s.worker w).pc ≠ .notStarted ∧ (s.worker w).pc ≠ .finished ∧ (s.worker w).selfExit = false

/-- Where a worker may be once its own `ExitThread` has detached it. -/
def AfterExit (pc : WorkerPc) : Prop :=
  (∃ m, pc = .invoking m) ∨ pc = .finished ∨ pc = .faulted

structure LifeInv (s : ThreadState) : Prop where
  fresh : ∀ w, s.spawned ≤ w → s.worker w = ⟨.notStarted, false⟩
  begun : ∀ w, w < s.spawned → (s.worker w).pc ≠ .notStarted
  live : ∀ w, s.Live w → s.thread = some (some w)
  handle : ∀ h, s.thread = some (some h) → h + 1 = s.spawned ∧ (s.worker h).selfExit = false
  afterExit : ∀ w, (s.worker w).selfExit = true → AfterExit (s.worker w).pc

/-- Two live workers are one. -/
theorem LifeInv.live_unique (h : LifeInv s) {v w : ℕ} (hv : s.Live v) (hw : s.Live w) :
    v = w := by
  have heq : some (some v) = some (some w) := (h.live v hv).symm.trans (h.live w hw)
  simpa using heq

/-- A worker that is between two handlers is live. -/
theorem LifeInv.live_of_pc (h : LifeInv s) {w : ℕ} (hn : (s.worker w).pc ≠ .notStarted)
    (he : ¬ AfterExit (s.worker w).pc) : s.Live w := by
  have hse : (s.worker w).selfExit = false := by
    by_contra hse
    exact he (h.afterExit w (by simpa using hse))
  exact ⟨hn, fun hf => he (Or.inr (Or.inl hf)), hse⟩

/-! ### Frame rules -/

theorem LifeInv.keep (h : LifeInv s) (hw : s'.worker = s.worker) (ht : s'.thread = s.thread)
    (hn : s'.spawned = s.spawned) : LifeInv s' := by
  constructor
  · rw [hw, hn]
    exact h.fresh
  · rw [hw, hn]
    exact h.begun
  · intro w hlive
    rw [ht]
    exact h.live w (by simpa only [Live, hw] using hlive)
  · rw [hw, hn, ht]
    exact h.handle
  · rw [hw]
    exact h.afterExit

theorem LifeInv.notify (h : LifeInv s) (hw : s'.worker = notifyOne s.worker)
    (ht : s'.thread = s.thread) (hn : s'.spawned = s.spawned) : LifeInv s' := by
  constructor
  · intro w hle
    have hfresh := h.fresh w (hn ▸ hle)
    rw [hw, notifyOne, hfresh]
    rfl
  · intro w hlt hpc
    rw [hw, notifyOne_pc_eq (by simp) (by simp)] at hpc
    exact h.begun w (hn ▸ hlt) hpc
  · intro w ⟨hn', hf, hse⟩
    rw [hw] at hn' hf hse
    rw [Ne, notifyOne_pc_eq (by simp) (by simp)] at hn' hf
    rw [notifyOne_selfExit] at hse
    rw [ht]
    exact h.live w ⟨hn', hf, hse⟩
  · intro v hv
    rw [hw, notifyOne_selfExit, hn]
    exact h.handle v (ht ▸ hv)
  · intro w hse
    rw [hw, notifyOne_selfExit] at hse
    have hpc := h.afterExit w hse
    rw [hw, notifyOne_pc]
    split
    · rename_i hasleep
      simp [AfterExit, hasleep] at hpc
    · exact hpc

/-- A running worker moves to another point of `Process`. -/
theorem LifeInv.move (h : LifeInv s) (w : ℕ) (pc : WorkerPc)
    (hw : s'.worker = Function.update s.worker w { s.worker w with pc := pc })
    (ht : s'.thread = s.thread) (hn : s'.spawned = s.spawned)
    (hstart : (s.worker w).pc ≠ .notStarted) (hrun : (s.worker w).pc ≠ .finished)
    (hpc : pc ≠ .notStarted) (hexit : (s.worker w).selfExit = true → AfterExit pc) :
    LifeInv s' := by
  have hself : s'.worker w = { s.worker w with pc := pc } := by
    rw [hw, Function.update_self]
  have hother : ∀ v, v ≠ w → s'.worker v = s.worker v := by
    intro v hv
    rw [hw, Function.update_of_ne hv]
  -- only a worker that was spawned has started
  have hlt : w < s.spawned := by
    by_contra hge
    exact hstart (by rw [h.fresh w (by omega)])
  constructor
  · intro v hv
    rw [hn] at hv
    rw [hother v (by omega)]
    exact h.fresh v hv
  · intro v hv
    rw [hn] at hv
    by_cases hvw : v = w
    · subst hvw
      rw [hself]
      exact hpc
    · rw [hother v hvw]
      exact h.begun v hv
  · intro v hv
    rw [ht]
    by_cases hvw : v = w
    · subst hvw
      rw [Live, hself] at hv
      exact h.live v ⟨hstart, hrun, hv.2.2⟩
    · rw [Live, hother v hvw] at hv
      exact h.live v hv
  · intro v hv
    rw [ht] at hv
    rw [hn]
    by_cases hvw : v = w
    · subst hvw
      rw [hself]
      exact h.handle v hv
    · rw [hother v hvw]
      exact h.handle v hv
  · intro v hv
    by_cases hvw : v = w
    · subst hvw
      rw [hself] at hv ⊢
      exact hexit hv
    · rw [hother v hvw] at hv ⊢
      exact h.afterExit v hv

/-- A new worker, while `m_thread` is empty and so no other one is live. -/
theorem LifeInv.spawn (hl : LifeInv s) (hth : s.thread = none) : LifeInv s.spawn := by
  have hother : ∀ w, w ≠ s.spawned → s.spawn.worker w = s.worker w := by
    intro w hw
    simp [ThreadState.spawn, setWorker, hw]
  have hself : s.spawn.worker s.spawned = ⟨.starting, false⟩ := by
    simp [ThreadState.spawn, setWorker]
  constructor
  · intro w hle
    have hw : s.spawned + 1 ≤ w := hle
    rw [hother w (by omega)]
    exact hl.fresh w (by omega)
  · intro w hlt
    have hw : w < s.spawned + 1 := hlt
    by_cases heq : w = s.spawned
    · subst heq
      simp [hself]
    · rw [hother w heq]
      exact hl.begun w (by omega)
  · intro w hlive
    by_cases heq : w = s.spawned
    · subst heq
      rfl
    · -- `m_thread` is empty, so no other worker is live
      rw [Live, hother w heq] at hlive
      rw [hl.live w hlive] at hth
      cases hth
  · intro w hw
    have heq : s.spawned = w := by
      simpa [ThreadState.spawn, setWorker] using hw
    subst heq
    exact ⟨rfl, by simp [hself]⟩
  · intro w hse
    by_cases heq : w = s.spawned
    · subst heq
      simp [hself] at hse
    · rw [hother w heq] at hse ⊢
      exact hl.afterExit w hse

/-- The current worker detaches itself from inside a handler. -/
theorem LifeInv.detach (hl : LifeInv s) {h : ℕ} {m : DelegateMsg}
    (hth : s.thread = some (some h)) (hm : (s.worker h).pc = .invoking m) :
    LifeInv (s.detach h) := by
  have hother : ∀ w, w ≠ h → (s.detach h).worker w = s.worker w := by
    intro w hw
    simp [ThreadState.detach, setWorker, hw]
  have hself : (s.detach h).worker h = ⟨.invoking m, true⟩ := by
    simp [ThreadState.detach, setWorker, hm]
  have hspawned : h < s.spawned := by
    have := (hl.handle h hth).1
    omega
  constructor
  · intro w hle
    have hw : s.spawned ≤ w := hle
    rw [hother w (by omega)]
    exact hl.fresh w hw
  · intro w hlt
    by_cases heq : w = h
    · subst heq
      simp [hself]
    · rw [hother w heq]
      exact hl.begun w hlt
  · intro w hlive
    by_cases heq : w = h
    · subst heq
      simp [Live, hself] at hlive
    · -- the live worker is the one that `m_thread` names
      rw [Live, hother w heq] at hlive
      have hw : some (some h) = some (some w) := hth.symm.trans (hl.live w hlive)
      exact absurd (by simpa using hw.symm) heq
  · intro w hw
    cases hw
  · intro w hse
    by_cases heq : w = h
    · subst heq
      rw [hself]
      exact Or.inl ⟨m, rfl⟩
    · rw [hother w heq] at hse ⊢
      exact hl.afterExit w hse

/-! ## The control calls -/

/-- What `m_thread` and `m_exit` are while a control call is in progress. -/
def ControlInv (s : ThreadState) : Prop :=
  match s.control with
  | .idle =>
    (s.thread = none ∧ (s.exit = true ∨ s.spawned = 0)) ∨
      ∃ h, s.thread = some (some h) ∧ s.exit = false
  | .createClear => s.thread = none ∧ (s.exit = true ∨ s.spawned = 0)
  | .createSpawn => s.thread = none ∧ s.exit = false
  | .createStart w => s.thread = some (some w) ∧ s.exit = false
  | .exitPush _ => ∃ h, s.thread = some (some h) ∧ s.exit = false
  | .exitJoin _ => ∃ h, s.thread = some (some h) ∧ s.exit = true
  | .exitReset _ => s.thread = some none ∧ s.exit = true

/-- A worker that is inside `ExitThread` is inside a handler. -/
def CallerInv (s : ThreadState) : Prop :=
  ∀ w, s.exiting w → ∃ m, (s.worker w).pc = .invoking m

/-- A worker that leaves a point of `Process` has started, has not finished and,
once detached, only leaves `Process`. -/
theorem WorkerMove.spec {w : ℕ} {pc : WorkerPc} (hl : LifeInv s) (h : WorkerMove l s w pc) :
    (s.worker w).pc ≠ .notStarted ∧ (s.worker w).pc ≠ .finished ∧ pc ≠ .notStarted ∧
      ((s.worker w).selfExit = true → AfterExit pc) := by
  have hafter := hl.afterExit w
  cases h <;> simp_all [AfterExit]

theorem LifeInv.step (h : Effect cfg l s s') (hl : LifeInv s) (hc : ControlInv s)
    (hcall : CallerInv s) : LifeInv s' := by
  cases h with
  | stutter => exact hl
  | beginCreate => exact hl.keep rfl rfl rfl
  | clearExit => exact hl.keep rfl rfl rfl
  | started => exact hl.keep rfl rfl rfl
  | beginExit => exact hl.keep rfl rfl rfl
  | unjoinable => exact hl.keep rfl rfl rfl
  | dispatch => exact hl.keep rfl rfl rfl
  | pushExit => exact hl.notify rfl rfl rfl
  | accept => exact hl.notify rfl rfl rfl
  | move w pc hm =>
    rcases hm.spec hl with ⟨hstart, hrun, hpc, hexit⟩
    exact hl.move w pc rfl rfl rfl hstart hrun hpc hexit
  | popHigh w m rest hw =>
    refine hl.move w (.got m) rfl rfl rfl (by simp [hw]) (by simp [hw]) (by simp) ?_
    intro hse
    simpa [hw, AfterExit] using hl.afterExit w hse
  | popNormal w m rest hw =>
    refine hl.move w (.got m) rfl rfl rfl (by simp [hw]) (by simp [hw]) (by simp) ?_
    intro hse
    simpa [hw, AfterExit] using hl.afterExit w hse
  | invoke w m d hlab hw =>
    refine hl.move w (.invoking d) rfl rfl rfl (by simp [hw]) (by simp [hw])
      (by simp) ?_
    intro _
    exact Or.inl ⟨d, rfl⟩
  | spawn hcon =>
    have hth : s.thread = none := by
      simp only [ControlInv, hcon] at hc
      exact hc.1
    exact hl.spawn hth
  | join t h hcon hth hne hfin =>
    -- the joined worker was the only live one and has finished
    refine ⟨hl.fresh, hl.begun, ?_, (fun h hh => by cases hh), hl.afterExit⟩
    intro w hlive
    have heq : some (some h) = some (some w) := hth.symm.trans (hl.live w hlive)
    have hw : h = w := by simpa using heq
    subst hw
    exact absurd hfin hlive.2.1
  | detach h hcon hth =>
    rcases hcall h (Or.inr (Or.inl hcon)) with ⟨m, hm⟩
    exact hl.detach hth hm
  | reset t hlab hcon =>
    have hth : s.thread = some none := by
      simp only [ControlInv, hcon] at hc
      exact hc.1
    refine ⟨hl.fresh, hl.begun, ?_, (fun h hh => by cases hh), hl.afterExit⟩
    intro w hlive
    rw [hl.live w hlive] at hth
    cases hth

theorem ControlInv.step (h : Effect cfg l s s') (hc : ControlInv s) : ControlInv s' := by
  cases h with
  | stutter => exact hc
  | beginCreate hl hcon hth =>
    simp only [ControlInv, hcon, hth] at hc
    simpa [ControlInv, hth] using hc
  | clearExit hcon =>
    simp only [ControlInv, hcon] at hc
    exact ⟨hc.1, rfl⟩
  | spawn hcon =>
    simp only [ControlInv, hcon] at hc
    exact ⟨rfl, hc.2⟩
  | started w hcon =>
    simp only [ControlInv, hcon] at hc
    exact Or.inr ⟨w, hc⟩
  | beginExit t hl hcon hth =>
    simp only [ControlInv, hcon] at hc
    exact hc.resolve_left fun hnone => hth hnone.1
  | pushExit t hcon =>
    simp only [ControlInv, hcon] at hc
    rcases hc with ⟨h, hth, -⟩
    exact ⟨h, hth, rfl⟩
  | join t h hcon hth hne hfin =>
    simp only [ControlInv, hcon] at hc
    exact ⟨rfl, hc.choose_spec.2⟩
  | detach h hcon hth =>
    simp only [ControlInv, hcon] at hc
    exact ⟨rfl, hc.choose_spec.2⟩
  | unjoinable t hcon hth =>
    simp only [ControlInv, hcon] at hc
    rcases hc with ⟨h, hh, -⟩
    exact absurd hh (hth h)
  | reset t hlab hcon =>
    simp only [ControlInv, hcon] at hc
    exact Or.inl ⟨rfl, Or.inl hc.2⟩
  | dispatch => exact hc
  | accept => exact hc
  | move => exact hc
  | popHigh => exact hc
  | popNormal => exact hc
  | invoke => exact hc

/-- No move of worker `w` starts inside its own `ExitThread` call. -/
theorem WorkerMove.not_exiting {w : ℕ} {pc : WorkerPc} (hcall : CallerInv s)
    (h : WorkerMove l s w pc) : ¬ s.exiting w := by
  intro hex
  rcases hcall w hex with ⟨m, hm⟩
  cases h <;> simp_all

/-- A step that starts no `ExitThread` call on a worker and leaves the worker
inside one where it is. -/
theorem CallerInv.keep (h : CallerInv s) (hex : ∀ w, s'.exiting w → s.exiting w)
    (hpc : ∀ w, s.exiting w → (s'.worker w).pc = (s.worker w).pc) : CallerInv s' := by
  intro w hw
  have hw' := hex w hw
  rcases h w hw' with ⟨m, hm⟩
  exact ⟨m, (hpc w hw').trans hm⟩

theorem CallerInv.step (h : Effect cfg l s s') (hcall : CallerInv s) : CallerInv s' := by
  have hmove : ∀ v pc, ¬ s.exiting v → ∀ w, s.exiting w →
      ((s.setPc v pc).worker w).pc = (s.worker w).pc := by
    intro v pc hv w hw
    have hne : w ≠ v := fun heq => hv (heq ▸ hw)
    rw [setPc_pc, if_neg hne]
  have hlock : ∀ v, (∀ m, (s.worker v).pc ≠ .invoking m) → ¬ s.exiting v := by
    intro v hv hex
    rcases hcall v hex with ⟨m, hm⟩
    exact hv m hm
  have hnotify : ∀ w, s.exiting w → (notifyOne s.worker w).pc = (s.worker w).pc := by
    intro w hw
    rcases hcall w hw with ⟨m, hm⟩
    rw [hm]
    exact (notifyOne_pc_eq (by simp) (by simp)).mpr hm
  cases h with
  | stutter => exact hcall
  | beginCreate => exact hcall.keep (by simp [exiting]) fun _ _ => rfl
  | clearExit => exact hcall.keep (by simp [exiting]) fun _ _ => rfl
  | started => exact hcall.keep (by simp [exiting]) fun _ _ => rfl
  | spawn hcon =>
    intro w hw
    simp [exiting, ThreadState.spawn, setWorker] at hw
  | beginExit t hl hcon hth hmay =>
    -- `mayExit`: the caller is a client or a worker inside a handler
    intro w hw
    have ht : t = .worker w := by simpa [exiting] using hw
    subst ht
    simp only [mayExit] at hmay
    split at hmay
    · rename_i m hm
      exact ⟨m, hm⟩
    · exact hmay.elim
  | pushExit t hcon => exact hcall.keep (by simp [exiting, hcon]) hnotify
  | join t h hcon => exact hcall.keep (by simp [exiting, hcon]) fun _ _ => rfl
  | detach h hcon =>
    exact hcall.keep (by simp [exiting, hcon, ThreadState.detach]) fun w _ => detach_pc s h w
  | unjoinable t hcon => exact hcall.keep (by simp [exiting, hcon]) fun _ _ => rfl
  | reset => exact hcall.keep (by simp [exiting, exitReset]) fun _ _ => rfl
  | dispatch => exact hcall.keep (fun _ h => h) fun _ _ => rfl
  | accept => exact hcall.keep (fun _ h => h) hnotify
  | move w pc hm => exact hcall.keep (fun _ h => h) (hmove w pc (hm.not_exiting hcall))
  | popHigh w m rest hw =>
    exact hcall.keep (fun _ h => h) (hmove w (.got m) (hlock w (by simp [hw])))
  | popNormal w m rest hw =>
    exact hcall.keep (fun _ h => h) (hmove w (.got m) (hlock w (by simp [hw])))
  | invoke w m d hlab hw =>
    exact hcall.keep (fun _ h => h) (hmove w (.invoking d) (hlock w (by simp [hw])))

/-! ## Every reachable state -/

/-- The life cycle invariants together. -/
structure Life (s : ThreadState) : Prop where
  workers : LifeInv s
  controls : ControlInv s
  callers : CallerInv s

theorem Life.initial : Life initial := by
  refine ⟨?_, Or.inl ⟨rfl, Or.inr rfl⟩, ?_⟩
  · constructor <;> simp [ThreadState.initial, Live]
  · intro w hw
    simp [exiting, ThreadState.initial] at hw

theorem Life.step (h : Effect cfg l s s') (hi : Life s) : Life s' :=
  ⟨hi.workers.step h hi.controls hi.callers, hi.controls.step h, hi.callers.step h⟩

theorem life_of_reachable {ok : ThreadLabel → ThreadState → Prop}
    (h : (threadLts cfg).ReachableWhen ok s) : Life s := by
  refine h.induct ?_ ?_
  · rintro s rfl
    exact Life.initial
  · intro l s _ hg _ hi
    exact hi.step (step_effect cfg hg)

/-! ## Runs in which no handler exits its own thread -/

/-- `ExitThread` is not called on a worker. -/
def Joined (l : ThreadLabel) (_ : ThreadState) : Prop := ∀ w, l ≠ .exitThread (.worker w)

/-- No worker has exited itself or is about to. -/
structure JoinedInv (s : ThreadState) : Prop where
  noSelfExit : ∀ w, (s.worker w).selfExit = false
  noExiting : ∀ w, ¬ s.exiting w

theorem JoinedInv.keep (h : JoinedInv s)
    (hse : ∀ w, (s'.worker w).selfExit = (s.worker w).selfExit)
    (hex : ∀ w, s'.exiting w → s.exiting w) : JoinedInv s' := by
  constructor
  · intro w
    rw [hse w]
    exact h.noSelfExit w
  · intro w hw
    exact h.noExiting w (hex w hw)

theorem JoinedInv.step (h : Effect cfg l s s') (hok : Joined l s) (hj : JoinedInv s) :
    JoinedInv s' := by
  cases h with
  | stutter => exact hj
  | beginCreate => exact hj.keep (fun _ => rfl) (by simp [exiting])
  | clearExit => exact hj.keep (fun _ => rfl) (by simp [exiting])
  | started => exact hj.keep (fun _ => rfl) (by simp [exiting])
  | spawn =>
    constructor
    · intro w
      by_cases heq : w = s.spawned
      · subst heq
        simp [ThreadState.spawn, setWorker]
      · simpa [ThreadState.spawn, setWorker, heq] using hj.noSelfExit w
    · simp [exiting, ThreadState.spawn, setWorker]
  | beginExit t hl =>
    refine ⟨hj.noSelfExit, ?_⟩
    intro w hw
    have ht : t = .worker w := by simpa [exiting] using hw
    exact hok w (ht ▸ hl)
  | pushExit t hcon => exact hj.keep (notifyOne_selfExit s.worker) (by simp [exiting, hcon])
  | join t h hcon => exact hj.keep (fun _ => rfl) (by simp [exiting, hcon])
  -- a worker that detaches itself is inside its own `ExitThread`
  | detach h hcon => exact absurd (Or.inr (Or.inl hcon)) (hj.noExiting h)
  | unjoinable t hcon => exact hj.keep (fun _ => rfl) (by simp [exiting, hcon])
  | reset => exact hj.keep (fun _ => rfl) (by simp [exiting, exitReset])
  | dispatch => exact hj.keep (fun _ => rfl) fun _ h => h
  | accept => exact hj.keep (notifyOne_selfExit s.worker) fun _ h => h
  | move w pc => exact hj.keep (fun v => setPc_selfExit s w v pc) fun _ h => h
  | popHigh w m => exact hj.keep (fun v => setPc_selfExit s w v (.got m)) fun _ h => h
  | popNormal w m => exact hj.keep (fun v => setPc_selfExit s w v (.got m)) fun _ h => h
  | invoke w m d => exact hj.keep (fun v => setPc_selfExit s w v (.invoking d)) fun _ h => h

theorem joined_of_reachable (h : (threadLts cfg).ReachableWhen Joined s) : JoinedInv s := by
  refine h.induct ?_ ?_
  · rintro s rfl
    exact ⟨fun _ => rfl, by simp [exiting, initial]⟩
  · intro l s _ hg hok hi
    exact hi.step (step_effect cfg hg) hok

/-- Without self exit, a worker that has started and not finished is the one
that `m_thread` names. -/
theorem JoinedInv.live (h : JoinedInv s) {w : ℕ} (hn : (s.worker w).pc ≠ .notStarted)
    (hf : (s.worker w).pc ≠ .finished) : s.Live w :=
  ⟨hn, hf, h.noSelfExit w⟩

end ThreadState

end AsyncSqlite
