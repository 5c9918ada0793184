import AsyncSqlite.Port.Win32
import AsyncSqlite.Port.Ledger

/-!
# AsyncSqlite.Port.Win32History — the life and the accounts of a win32 `Thread`

`LifeInv` says what `m_exit`, the handle and the worker are at each point of
`CreateThread` and `ExitThread`; `HistoryInv` keeps the accounts (`Ledger`).
-/

namespace AsyncSqlite

namespace Win32Thread

variable {cfg : Config} {l : Win32Label} {s s' : Win32Thread}

/-! ## The life of the worker -/

/-- What holds at each point of `CreateThread` and `ExitThread`. -/
def ControlInv (s : Win32Thread) : Prop :=
  match s.control with
  | .idle => s.handle = true → s.exit = false
  | .createSpawn => s.handle = false ∧ s.exit = false
  | .createStart | .exitPush => s.handle = true ∧ s.exit = false
  | .exitWait => s.handle = true ∧ s.exit = true
  | .exitClose => s.handle = true ∧ s.exit = true ∧ s.process = .finished

structure LifeInv (s : Win32Thread) : Prop where
  stopped : s.handle = false → s.process = .notStarted ∨ s.process = .finished
  control : ControlInv s

theorem LifeInv.initial : LifeInv initial := by
  refine ⟨fun _ => Or.inl rfl, ?_⟩
  intro _
  rfl

theorem ProcessMove.alive {pc : WorkerPc} (h : ProcessMove s pc) :
    s.process ≠ .notStarted ∧ s.process ≠ .finished ∧ pc ≠ .notStarted := by
  cases h with
  | sleep hw => rcases hw with hw | hw <;> simp [hw]
  | quit hw => rcases hw with hw | hw <;> simp [hw]
  | start hp | lock hp | timeout hp | returned m hp | threw m hp => simp [hp]
  | exitMsg m hp | noInvoker m hp => simp [hp]

/-- A worker that runs goes on. -/
theorem LifeInv.run (h : LifeInv s) (halive : s.process ≠ .notStarted ∧ s.process ≠ .finished)
    (hhandle : s'.handle = s.handle) (hexit : s'.exit = s.exit)
    (hcontrol : s'.control = s.control) : LifeInv s' := by
  have hh : s.handle = true := by
    by_contra hfalse
    rcases h.stopped (by simpa using hfalse) with hp | hp
    · exact halive.1 hp
    · exact halive.2 hp
  constructor
  · intro hfalse
    rw [hhandle, hh] at hfalse
    cases hfalse
  · have hc := h.control
    unfold ControlInv at hc ⊢
    rw [hcontrol]
    cases hcon : s.control with
    | exitClose =>
      simp only [hcon] at hc
      exact absurd hc.2.2 halive.2
    | _ => simpa only [hcon, hhandle, hexit] using hc

theorem alive_of_wait (hw : s.process = .lock ∨ s.process = .asleep) :
    s.process ≠ .notStarted ∧ s.process ≠ .finished := by
  rcases hw with hw | hw <;> simp [hw]

theorem LifeInv.step (h : Effect l s s') (hi : LifeInv s) : LifeInv s' := by
  have hc := hi.control
  cases h with
  | stutter => exact hi
  | beginCreate hcon hh => exact ⟨hi.stopped, hh, rfl⟩
  | spawn hcon =>
    simp only [ControlInv, hcon] at hc
    exact ⟨by simp, rfl, hc.2⟩
  | started hcon =>
    simp only [ControlInv, hcon] at hc
    exact ⟨hi.stopped, fun _ => hc.2⟩
  | beginExit hcon hh =>
    simp only [ControlInv, hcon] at hc
    exact ⟨hi.stopped, hh, hc hh⟩
  | pushExit hl hcon =>
    simp only [ControlInv, hcon] at hc
    exact ⟨hi.stopped, hc.1, rfl⟩
  | waited hcon hp =>
    simp only [ControlInv, hcon] at hc
    exact ⟨hi.stopped, hc.1, hc.2, hp⟩
  | close hcon =>
    simp only [ControlInv, hcon] at hc
    exact ⟨fun _ => Or.inr hc.2.2, by simp [ControlInv]⟩
  | dispatch m pc => exact ⟨hi.stopped, hc⟩
  | accept m => exact ⟨hi.stopped, hc⟩
  | move pc hm => exact hi.run ⟨hm.alive.1, hm.alive.2.1⟩ rfl rfl rfl
  | popHigh m rest hw => exact hi.run (alive_of_wait hw) rfl rfl rfl
  | popNormal m rest hw => exact hi.run (alive_of_wait hw) rfl rfl rfl
  | invoke m d hp => exact hi.run (by simp [hp]) rfl rfl rfl

theorem life_of_reachable {ok : Win32Label → Win32Thread → Prop}
    (hr : (win32Lts cfg).ReachableWhen ok s) : LifeInv s := by
  refine hr.induct (P := LifeInv) ?_ ?_
  · rintro s rfl
    exact .initial
  · intro l s _ hg _ hi
    exact hi.step (step_effect cfg hg)

/-! ## The accounts -/

abbrev Accounts (s : Win32Thread) : Prop :=
  Ledger s.dispatch s.accepted s.popped s.queued s.popped s.invoked
    (ThreadState.inHand s.process)

structure HistoryInv (s : Win32Thread) : Prop where
  shape : ∀ m ∈ s.highQueue ++ s.normalQueue, m = .exit ∨ ∃ d, m = .delegate d
  ledger : Accounts s

theorem HistoryInv.initial : HistoryInv initial :=
  ⟨by simp [Win32Thread.initial], .nil _⟩

theorem queued_accept (s : Win32Thread) (m : DelegateMsg) :
    (s.accept m).queued.Perm (s.queued ++ [m]) := by
  unfold queued accept
  by_cases hp : m.priority = .high
  · simp only [hp, if_true, List.filterMap_append, List.append_assoc]
    exact List.perm_append_comm.append_left _
  · simp [hp]

/-- A message that is queued after a push is the new one or was queued before. -/
theorem mem_accept {m : DelegateMsg} {x : ThreadMsg}
    (hx : x ∈ (s.accept m).highQueue ++ (s.accept m).normalQueue) :
    x = .delegate m ∨ x ∈ s.highQueue ++ s.normalQueue := by
  unfold accept at hx
  by_cases hp : m.priority = .high
  · simp only [hp, if_true, List.mem_append, List.mem_singleton] at hx ⊢
    tauto
  · simp only [hp, if_false, List.mem_append, List.mem_singleton] at hx ⊢
    tauto

/-- A call in front of its return has pushed nothing. -/
theorem HistoryInv.fresh (hi : HistoryInv s) {m : DelegateMsg}
    (hm : ∀ m' b, s.dispatch m.id ≠ .returned m' b) : ∀ x ∈ s.accepted, x.id ≠ m.id :=
  hi.ledger.fresh rfl fun x => hm x true

/-- A message that leaves the queues. -/
theorem HistoryInv.pop (hi : HistoryInv s) {m : ThreadMsg}
    (hw : s.process = .lock ∨ s.process = .asleep) (hm : m ∈ s.highQueue ++ s.normalQueue)
    (hsub : ∀ x ∈ s'.highQueue ++ s'.normalQueue, x ∈ s.highQueue ++ s.normalQueue)
    (hq : s.queued = m.data.toList ++ s'.queued) (hp : s'.process = .got m)
    (hdispatch : s'.dispatch = s.dispatch) (haccepted : s'.accepted = s.accepted)
    (hpopped : s'.popped = s.popped ++ m.data.toList) (hinvoked : s'.invoked = s.invoked) :
    HistoryInv s' := by
  have hhand : ThreadState.inHand s.process = [] := by
    rcases hw with hw | hw <;> simp [hw, ThreadState.inHand]
  refine ⟨fun x hx => hi.shape x (hsub x hx), ?_⟩
  have hpop := hi.ledger.pop (hi.shape m hm) hhand hq
  unfold Accounts
  rw [hp, hdispatch, haccepted, hpopped, hinvoked]
  exact hpop

/-- Only the switch over the message and the return of an invocation change what
the worker has in hand. -/
theorem ProcessMove.inHand {pc : WorkerPc} (h : ProcessMove s pc) :
    ThreadState.inHand pc = ThreadState.inHand s.process := by
  cases h with
  | sleep hw => rcases hw with hw | hw <;> simp [hw, ThreadState.inHand]
  | quit hw => rcases hw with hw | hw <;> simp [hw, ThreadState.inHand]
  | start hp | lock hp | timeout hp | returned m hp | threw m hp =>
    simp [hp, ThreadState.inHand]
  | exitMsg m hp ht | noInvoker m hp ht => simp [hp, ht, ThreadState.inHand]

theorem HistoryInv.accept (hi : HistoryInv s) {m : DelegateMsg}
    (hm : ∀ m' b, s.dispatch m.id ≠ .returned m' b) : HistoryInv (s.accept m) := by
  refine ⟨?_, hi.ledger.accept (hi.fresh hm) (queued_accept s m)⟩
  intro x hx
  rcases mem_accept hx with hx | hx
  · exact Or.inr ⟨m, hx⟩
  · exact hi.shape x hx

/-- The exit message is no delegate message, so it is on no account. -/
theorem HistoryInv.pushExit (hi : HistoryInv s) :
    HistoryInv { s with
      exit := true
      highQueue := s.highQueue ++ [.exit]
      control := .exitWait } := by
  constructor
  · intro m hm
    have hcases : m = .exit ∨ m ∈ s.highQueue ++ s.normalQueue := by
      simp only [List.mem_append, List.mem_singleton] at hm ⊢
      tauto
    rcases hcases with hm | hm
    · exact Or.inl hm
    · exact hi.shape m hm
  · have hqueued : ({ s with
        exit := true
        highQueue := s.highQueue ++ [.exit]
        control := .exitWait } : Win32Thread).queued = s.queued := by simp [queued]
    unfold Accounts
    rw [hqueued]
    exact hi.ledger

theorem HistoryInv.step (h : Effect l s s') (hl : LifeInv s) (hi : HistoryInv s) :
    HistoryInv s' := by
  cases h with
  | stutter => exact hi
  | beginCreate | started | beginExit | waited | close => exact ⟨hi.shape, hi.ledger⟩
  | spawn hcon =>
    -- the worker that the new one replaces has nothing in hand: it never ran, or it is done
    have hc := hl.control
    simp only [ControlInv, hcon] at hc
    have hhand : ThreadState.inHand s.process = [] := by
      rcases hl.stopped hc.1 with hp | hp <;> simp [hp, ThreadState.inHand]
    have hledger := hi.ledger
    unfold Accounts at hledger
    rw [hhand] at hledger
    exact ⟨hi.shape, hledger⟩
  | pushExit hlab hcon => exact hi.pushExit
  | dispatch m pc hm => exact ⟨hi.shape, hi.ledger.move (hi.fresh hm) pc⟩
  | accept m hm hexit => exact hi.accept hm
  | move pc hm =>
    refine ⟨hi.shape, ?_⟩
    unfold Accounts
    rw [hm.inHand]
    exact hi.ledger
  | popHigh m rest hw hq =>
    refine hi.pop hw (by simp [hq]) ?_ ?_ rfl rfl rfl rfl rfl
    · intro x hx
      rw [hq]
      exact List.mem_cons_of_mem m hx
    · unfold queued
      rw [hq]
      cases hd : m.data <;> simp [take, hd]
  | popNormal m rest hw hhigh hq =>
    refine hi.pop hw (by simp [hq]) ?_ ?_ rfl rfl rfl rfl rfl
    · intro x hx
      rw [hhigh, hq]
      have hx' : x ∈ s.highQueue ++ rest := hx
      rw [hhigh, List.nil_append] at hx'
      exact List.mem_cons_of_mem m hx'
    · unfold queued
      rw [hhigh, hq]
      cases hd : m.data <;> simp [take, hd, hhigh]
  | invoke m d hp hd =>
    have hhand : ThreadState.inHand s.process = [d] := by simp [hp, hd, ThreadState.inHand]
    exact ⟨hi.shape, hi.ledger.invoke hhand⟩

theorem history_of_reachable {ok : Win32Label → Win32Thread → Prop}
    (hr : (win32Lts cfg).ReachableWhen ok s) : HistoryInv s := by
  refine hr.induct (P := HistoryInv) ?_ ?_
  · rintro s rfl
    exact .initial
  · intro l s hr hg _ hi
    exact hi.step (step_effect cfg hg) (life_of_reachable hr)

end Win32Thread

end AsyncSqlite
