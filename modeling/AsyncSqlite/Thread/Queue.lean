import AsyncSqlite.Thread.Lifecycle

/-!
# AsyncSqlite.Thread.Queue — when the queues are empty

What the two queues hold (`ShapeInv`: delegate messages of their priority, and
behind them at most the exit message), and the points of the life cycle at
which both are known to be empty (`QueueInv`): nothing is pushed behind the
exit message, so a worker that takes it, and a worker that has finished, leave
empty queues to `ExitThread`.
-/

namespace AsyncSqlite

namespace ThreadState

variable {cfg : Config} {l : ThreadLabel} {s s' : ThreadState}

/-! ## What the queues hold -/

/-- `m` carries a delegate message of priority `p`. -/
def IsDelegate (p : Priority) (m : ThreadMsg) : Prop :=
  ∃ d, m = .delegate d ∧ d.priority = p

/-- Delegate messages of normal priority, then at most the exit message, which
only a set `m_exit` allows. -/
def NormalShape (exit : Bool) (q : List ThreadMsg) : Prop :=
  ∃ front back, q = front ++ back ∧ (∀ m ∈ front, IsDelegate .normal m) ∧
    (back = [] ∨ back = [.exit] ∧ exit = true)

structure ShapeInv (s : ThreadState) : Prop where
  high : ∀ m ∈ s.highQueue, IsDelegate .high m
  normal : NormalShape s.exit s.normalQueue

theorem NormalShape.nil (exit : Bool) : NormalShape exit [] :=
  ⟨[], [], rfl, by simp, Or.inl rfl⟩

theorem NormalShape.delegate {exit : Bool} {q : List ThreadMsg} (h : NormalShape exit q)
    {d : DelegateMsg} (hd : d.priority = .normal) (he : exit = false) :
    NormalShape exit (q ++ [.delegate d]) := by
  rcases h with ⟨front, back, rfl, hfront, hback⟩
  have hnil : back = [] := by
    rcases hback with hnil | ⟨-, hset⟩
    · exact hnil
    · rw [he] at hset
      cases hset
  subst hnil
  refine ⟨front ++ [.delegate d], [], by simp, ?_, Or.inl rfl⟩
  intro m hm
  rcases List.mem_append.mp hm with hm | hm
  · exact hfront m hm
  · exact ⟨d, by simpa using hm, hd⟩

theorem NormalShape.exit {q : List ThreadMsg} (h : NormalShape false q) :
    NormalShape true (q ++ [.exit]) := by
  rcases h with ⟨front, back, rfl, hfront, hback⟩
  have hnil : back = [] := by
    rcases hback with hnil | ⟨-, hset⟩
    · exact hnil
    · cases hset
  subst hnil
  exact ⟨front, [.exit], by simp, hfront, Or.inr ⟨rfl, rfl⟩⟩

/-- Popping: either a delegate message, or the exit message with nothing
behind it. -/
theorem NormalShape.pop {exit : Bool} {m : ThreadMsg} {q : List ThreadMsg}
    (h : NormalShape exit (m :: q)) :
    NormalShape exit q ∧ (IsDelegate .normal m ∨ m = .exit ∧ q = [] ∧ exit = true) := by
  rcases h with ⟨front, back, heq, hfront, hback⟩
  cases front with
  | nil =>
    rcases hback with hnil | ⟨hexit, hset⟩
    · rw [hnil] at heq
      cases heq
    · rw [hexit] at heq
      have hm : m = .exit := (List.cons.inj heq).1
      have hq : q = [] := (List.cons.inj heq).2
      subst hq
      exact ⟨.nil exit, Or.inr ⟨hm, rfl, hset⟩⟩
  | cons a front =>
    have ha : m = a := (List.cons.inj heq).1
    have hq : q = front ++ back := (List.cons.inj heq).2
    refine ⟨⟨front, back, hq, fun x hx => hfront x (List.mem_cons_of_mem a hx), hback⟩, ?_⟩
    exact Or.inl (ha ▸ hfront a List.mem_cons_self)

/-! ## Empty queues -/

/-- Both queues are empty. -/
def Empty (s : ThreadState) : Prop := s.highQueue = [] ∧ s.normalQueue = []

/-- Both queues are empty and `m_exit` keeps producers out. -/
def Drained (s : ThreadState) : Prop := s.Empty ∧ s.exit = true

/-- Only a `CreateThread` that clears `m_exit` opens drained queues again. -/
theorem Drained.step (h : Effect cfg l s s') (hc : ControlInv s) (hcon : s.control ≠ .createClear)
    (hd : Drained s) : Drained s' := by
  rcases hd with ⟨⟨hhigh, hnormal⟩, hexit⟩
  cases h with
  | stutter | beginCreate | spawn | started | beginExit | join | detach | unjoinable | dispatch
  | move | invoke => exact ⟨⟨hhigh, hnormal⟩, hexit⟩
  | clearExit hcon' => exact absurd hcon' hcon
  | pushExit t hcon' =>
    -- `ExitThread` pushes its message only while `m_exit` is clear
    simp only [ControlInv, hcon'] at hc
    rcases hc with ⟨h, -, hclear⟩
    rw [hclear] at hexit
    cases hexit
  | accept m hm hclear =>
    rw [hclear] at hexit
    cases hexit
  | popHigh w m rest hw hq =>
    rw [hq] at hhigh
    cases hhigh
  | popNormal w m rest hw _ hq =>
    rw [hq] at hnormal
    cases hnormal
  | reset => exact ⟨⟨rfl, rfl⟩, hexit⟩

theorem ShapeInv.step (h : Effect cfg l s s') (hc : ControlInv s)
    (hparked : s.control = .createClear → s.Empty) (hs : ShapeInv s) : ShapeInv s' := by
  rcases hs with ⟨hhigh, hnormal⟩
  cases h with
  | stutter | beginCreate | spawn | started | beginExit | join | detach | unjoinable | dispatch
  | move | invoke => exact ⟨hhigh, hnormal⟩
  | clearExit hcon =>
    -- nothing is queued when `m_exit` is cleared
    rcases hparked hcon with ⟨hh, hn⟩
    refine ⟨hhigh, ?_⟩
    show NormalShape false s.normalQueue
    rw [hn]
    exact .nil false
  | pushExit t hcon =>
    simp only [ControlInv, hcon] at hc
    rcases hc with ⟨h, -, hclear⟩
    rw [hclear] at hnormal
    exact ⟨hhigh, hnormal.exit⟩
  | accept m hm hclear =>
    cases hp : m.priority with
    | high =>
      refine ⟨?_, by simpa [ThreadState.accept, setDispatch, push, ThreadMsg.getPriority, hp]⟩
      intro x hx
      have hx' : x ∈ s.highQueue ∨ x = .delegate m := by
        simpa [ThreadState.accept, setDispatch, push, ThreadMsg.getPriority, hp] using hx
      rcases hx' with hx | rfl
      · exact hhigh x hx
      · exact ⟨m, rfl, hp⟩
    | normal =>
      have hq := hnormal.delegate hp hclear
      exact ⟨by simpa [ThreadState.accept, setDispatch, push, ThreadMsg.getPriority, hp],
        by simpa [ThreadState.accept, setDispatch, push, ThreadMsg.getPriority, hp]⟩
  | popHigh w m rest hw hq =>
    rw [hq] at hhigh
    exact ⟨fun x hx => hhigh x (List.mem_cons_of_mem m hx), hnormal⟩
  | popNormal w m rest hw hh hq =>
    rw [hq] at hnormal
    exact ⟨hhigh, hnormal.pop.1⟩
  | reset => exact ⟨by simp [exitReset], .nil _⟩

structure QueueInv (s : ThreadState) : Prop where
  shape : ShapeInv s
  /-- without a worker nothing is queued until `m_exit` is cleared -/
  parked : s.control = .idle ∨ s.control = .createClear → s.thread = none → s.Empty
  asleep : ∀ w, (s.worker w).pc = .asleep → s.Empty ∧ s.exit = false
  got : ∀ w m, (s.worker w).pc = .got m → (∃ p, IsDelegate p m) ∨ m = .exit ∧ s.Drained
  finished : ∀ h, s.thread = some (some h) → (s.worker h).pc = .finished → s.Drained
  /-- behind a join the queues are empty; a worker that detached itself may
  leave messages behind -/
  leaving : ∀ t, s.control = .exitReset t →
    s.Drained ∨ ∃ w, t = .worker w ∧ (s.worker w).selfExit = true
  engaged : s.thread ≠ none → 0 < s.spawned
  /-- a producer that found `m_thread` engaged did so after a `CreateThread` -/
  producer : ∀ i m, s.dispatch i = .checked m ∨ s.dispatch i = .waiting m → 0 < s.spawned

/-! ### One step, field by field -/

theorem parked_step (h : Effect cfg l s s') (hl : Life s) (hq : QueueInv s) :
    s'.control = .idle ∨ s'.control = .createClear → s'.thread = none → s'.Empty := by
  intro hcon' hth'
  cases h with
  | stutter | dispatch | move | invoke => exact hq.parked hcon' hth'
  | beginCreate hlab hcon hth => exact hq.parked (Or.inl hcon) hth
  | clearExit | spawn | beginExit | pushExit | join | detach | unjoinable =>
    rcases hcon' with hcon' | hcon' <;> cases hcon'
  | started w hcon =>
    have hc := hl.controls
    simp only [ControlInv, hcon] at hc
    rw [hc.1] at hth'
    cases hth'
  | accept m hm hclear hroom =>
    -- `m_exit` is clear only if there never was a worker to dispatch to
    obtain ⟨i, hi⟩ : ∃ i, s.dispatch i = .checked m ∨ s.dispatch i = .waiting m := ⟨m.id, hm⟩
    have hpos := hq.producer i m hi
    have hc := hl.controls
    have hnone : s.thread = none := hth'
    have hclosed : s.exit = true ∨ s.spawned = 0 := by
      rcases hcon' with hcon | hcon
      · have hcon : s.control = .idle := hcon
        simp only [ControlInv, hcon, hnone] at hc
        simpa using hc
      · have hcon : s.control = .createClear := hcon
        simp only [ControlInv, hcon] at hc
        exact hc.2
    rcases hclosed with hset | hzero
    · rw [hclear] at hset
      cases hset
    · omega
  | popHigh w m rest hw =>
    have hlive := hl.workers.live w (hl.workers.live_of_pc (by simp [hw]) (by simp [hw, AfterExit]))
    have hnone : s.thread = none := hth'
    rw [hnone] at hlive
    cases hlive
  | popNormal w m rest hw =>
    have hlive := hl.workers.live w (hl.workers.live_of_pc (by simp [hw]) (by simp [hw, AfterExit]))
    have hnone : s.thread = none := hth'
    rw [hnone] at hlive
    cases hlive
  | reset => exact ⟨rfl, rfl⟩

theorem asleep_step (h : Effect cfg l s s') (hq : QueueInv s) :
    ∀ w, (s'.worker w).pc = .asleep → s'.Empty ∧ s'.exit = false := by
  intro w hw'
  -- a worker that pops found a queue that was not empty, so nobody is asleep
  have hpop : ¬ s.Empty → (s.worker w).pc ≠ .asleep := fun hne hw => hne (hq.asleep w hw).1
  cases h with
  | stutter | beginCreate | started | beginExit | join | unjoinable | dispatch =>
    exact hq.asleep w hw'
  | clearExit => exact ⟨(hq.asleep w hw').1, rfl⟩
  | spawn =>
    rw [spawn_pc] at hw'
    split at hw'
    · cases hw'
    · exact hq.asleep w hw'
  | detach h =>
    rw [detach_pc] at hw'
    exact hq.asleep w hw'
  | pushExit | accept =>
    -- the notification leaves nobody asleep
    have hw : (notifyOne s.worker w).pc = .asleep := hw'
    rw [notifyOne_pc] at hw
    split at hw
    · cases hw
    · exact absurd hw ‹_›
  | move v pc hm =>
    rw [setPc_pc] at hw'
    split at hw'
    · cases hm with
      | sleep hv hh hn hexit => exact ⟨⟨hh, hn⟩, hexit⟩
      | _ => cases hw'
    · exact hq.asleep w hw'
  | popHigh v m rest hv hh =>
    rw [take_pc] at hw'
    split at hw'
    · cases hw'
    · refine absurd hw' (hpop ?_)
      rintro ⟨hnil, -⟩
      rw [hnil] at hh
      cases hh
  | popNormal v m rest hv hh hn =>
    rw [take_pc] at hw'
    split at hw'
    · cases hw'
    · refine absurd hw' (hpop ?_)
      rintro ⟨-, hnil⟩
      rw [hnil] at hn
      cases hn
  | invoke v m d =>
    rw [invoke_pc] at hw'
    split at hw'
    · cases hw'
    · exact hq.asleep w hw'
  | reset => exact ⟨⟨rfl, rfl⟩, (hq.asleep w hw').2⟩

/-- While a worker holds a message, `m_thread` names it, so no `CreateThread`
is about to clear `m_exit`. -/
theorem Life.not_createClear (hl : Life s) {w : ℕ} (hlive : s.Live w) :
    s.control ≠ .createClear := by
  intro hcon
  have hc := hl.controls
  simp only [ControlInv, hcon] at hc
  rw [hl.workers.live w hlive] at hc
  cases hc.1

theorem Life.live_of_got (hl : Life s) {w : ℕ} {m : ThreadMsg} (hw : (s.worker w).pc = .got m) :
    s.Live w :=
  hl.workers.live_of_pc (by simp [hw]) (by simp [hw, AfterExit])

theorem Life.live_of_lock (hl : Life s) {w : ℕ} (hw : (s.worker w).pc = .lock) : s.Live w :=
  hl.workers.live_of_pc (by simp [hw]) (by simp [hw, AfterExit])

theorem got_step (h : Effect cfg l s s') (hl : Life s) (hq : QueueInv s) :
    ∀ w m, (s'.worker w).pc = .got m → (∃ p, IsDelegate p m) ∨ m = .exit ∧ s'.Drained := by
  intro w m hw'
  have hmove := pc_of_step h w
  rw [hw'] at hmove
  cases hmove with
  | keep hw =>
    rcases hq.got w m hw with hd | ⟨hm, hd⟩
    · exact Or.inl hd
    · exact Or.inr ⟨hm, hd.step h hl.controls (hl.not_createClear (hl.live_of_got hw))⟩
  | move hm => cases hm
  | popHigh _ hh => exact Or.inl ⟨.high, hq.shape.high m (by simp [hh])⟩
  | popNormal _ hh hn heq =>
    have hshape := hq.shape.normal
    rw [hn] at hshape
    -- the exit message is the last one of its queue
    rcases hshape.pop.2 with hd | ⟨hm, hrest, hexit⟩
    · exact Or.inl ⟨.normal, hd⟩
    · subst heq
      exact Or.inr ⟨hm, ⟨hh, hrest⟩, hexit⟩

/-- The worker that `m_thread` names leaves `Process` only over drained
queues. -/
theorem WorkerMove.drained {h : ℕ} (hl : Life s) (hq : QueueInv s)
    (hth : s.thread = some (some h)) (hm : WorkerMove l s h .finished) : s.Drained := by
  have hself := (hl.workers.handle h hth).2
  cases hm with
  | leave _ hse | returnedExit _ _ _ _ hse =>
    rw [hself] at hse
    cases hse
  | quit _ hh hn hexit => exact ⟨⟨hh, hn⟩, hexit⟩
  | exitMsg m hm ht hid =>
    rcases hq.got h m hm with ⟨p, d, hd, -⟩ | ⟨-, hd⟩
    · rw [hd] at hid
      cases hid
    · exact hd

theorem finished_step (h : Effect cfg l s s') (hl : Life s) (hq : QueueInv s) :
    ∀ h, s'.thread = some (some h) → (s'.worker h).pc = .finished → s'.Drained := by
  intro v hth' hv'
  have hkeep : s.thread = some (some v) → (s.worker v).pc = .finished → s'.Drained := by
    intro hth hv
    -- `CreateThread` clears `m_exit` only while `m_thread` is empty
    have hcon : s.control ≠ .createClear := by
      intro hcon
      have hc := hl.controls
      simp only [ControlInv, hcon] at hc
      rw [hth] at hc
      cases hc.1
    exact (hq.finished v hth hv).step h hl.controls hcon
  cases h with
  | stutter | beginCreate | clearExit | started | beginExit | dispatch | unjoinable =>
    exact hkeep hth' hv'
  | join | detach | reset => cases hth'
  | spawn =>
    have heq : s.spawned = v := by simpa [ThreadState.spawn, setWorker] using hth'
    subst heq
    simp at hv'
  | pushExit | accept => exact hkeep hth' ((notifyOne_pc_eq (by simp) (by simp)).mp hv')
  | move w pc hm =>
    rw [setPc_pc] at hv'
    split at hv'
    · rename_i heq
      subst heq hv'
      show s.Drained
      exact WorkerMove.drained hl hq hth' hm
    · exact hkeep hth' hv'
  | popHigh w x rest | popNormal w x rest | invoke w x d =>
    simp only [take_pc, invoke_pc] at hv'
    split at hv'
    · cases hv'
    · exact hkeep hth' hv'

theorem leaving_step (h : Effect cfg l s s') (hl : Life s) (hq : QueueInv s) :
    ∀ t, s'.control = .exitReset t →
      s'.Drained ∨ ∃ w, t = .worker w ∧ (s'.worker w).selfExit = true := by
  intro t hcon'
  have hkeep : s.control = .exitReset t →
      (∀ w, (s.worker w).selfExit = true → (s'.worker w).selfExit = true) →
      s'.Drained ∨ ∃ w, t = .worker w ∧ (s'.worker w).selfExit = true := by
    intro hcon hself
    rcases hq.leaving t hcon with hd | ⟨w, ht, hse⟩
    · exact Or.inl (hd.step h hl.controls (by simp [hcon]))
    · exact Or.inr ⟨w, ht, hself w hse⟩
  cases h with
  | stutter | dispatch => exact hkeep hcon' fun _ hse => hse
  | beginCreate | clearExit | spawn | started | beginExit | pushExit | reset => cases hcon'
  | join t' v hcon hth hne hfin => exact Or.inl (hq.finished v hth hfin)
  | detach v hcon =>
    have ht : Tid.worker v = t := by simpa [ThreadState.detach] using hcon'
    exact Or.inr ⟨v, ht.symm, by simp [ThreadState.detach, setWorker]⟩
  | unjoinable t' hcon hth =>
    have hc := hl.controls
    simp only [ControlInv, hcon] at hc
    rcases hc with ⟨v, hv, -⟩
    exact absurd hv (hth v)
  | accept => exact hkeep hcon' fun w hse => (notifyOne_selfExit s.worker w).trans hse
  | move v pc => exact hkeep hcon' fun w hse => (setPc_selfExit s v w pc).trans hse
  | popHigh v m | popNormal v m =>
    exact hkeep hcon' fun w hse => (setPc_selfExit s v w (.got m)).trans hse
  | invoke v m d => exact hkeep hcon' fun w hse => (setPc_selfExit s v w (.invoking d)).trans hse

theorem engaged_step (h : Effect cfg l s s') (hq : QueueInv s) :
    s'.thread ≠ none → 0 < s'.spawned := by
  cases h with
  | spawn => exact fun _ => Nat.succ_pos s.spawned
  | join t v hcon hth | detach v hcon hth => exact fun _ => hq.engaged (by simp [hth])
  | reset => exact fun hth => absurd rfl hth
  | _ => exact hq.engaged

theorem producer_step (h : Effect cfg l s s') (hq : QueueInv s) :
    ∀ i m, s'.dispatch i = .checked m ∨ s'.dispatch i = .waiting m → 0 < s'.spawned := by
  intro i m hi'
  cases h with
  | spawn => exact Nat.succ_pos s.spawned
  | dispatch x pc hm =>
    by_cases heq : i = x.id
    · subst heq
      cases hm with
      | check _ hth => exact hq.engaged hth
      | wait hx => exact hq.producer x.id x (Or.inl hx)
      | _ => simp [setDispatch] at hi'
    · exact hq.producer i m (by simpa [setDispatch, heq] using hi')
  | accept x hx =>
    by_cases heq : i = x.id
    · subst heq
      exact hq.producer x.id x hx
    · exact hq.producer i m (by simpa [ThreadState.accept, setDispatch, push, heq] using hi')
  | _ => exact hq.producer i m hi'

theorem QueueInv.initial : QueueInv initial := by
  constructor <;> simp [ThreadState.initial, Empty]
  exact ⟨by simp, .nil _⟩

theorem QueueInv.step (h : Effect cfg l s s') (hl : Life s) (hq : QueueInv s) : QueueInv s' where
  shape := by
    refine hq.shape.step h hl.controls ?_
    intro hcon
    have hc := hl.controls
    simp only [ControlInv, hcon] at hc
    exact hq.parked (Or.inr hcon) hc.1
  parked := parked_step h hl hq
  asleep := asleep_step h hq
  got := got_step h hl hq
  finished := finished_step h hl hq
  leaving := leaving_step h hl hq
  engaged := engaged_step h hq
  producer := producer_step h hq

theorem queue_of_reachable {ok : ThreadLabel → ThreadState → Prop}
    (h : (threadLts cfg).ReachableWhen ok s) : QueueInv s := by
  refine h.induct ?_ ?_
  · rintro s rfl
    exact QueueInv.initial
  · intro l s hr hg _ hi
    exact hi.step (step_effect cfg hg) (life_of_reachable hr)

/-- What `Process` finds at the front of the normal queue. -/
theorem QueueInv.normal_head (hq : QueueInv s) {m : ThreadMsg} {rest : List ThreadMsg}
    (hnormal : s.normalQueue = m :: rest) : IsDelegate .normal m ∨ m = .exit := by
  have hshape := hq.shape.normal
  rw [hnormal] at hshape
  rcases hshape.pop.2 with hd | ⟨hexit, -, -⟩
  · exact Or.inl hd
  · exact Or.inr hexit

end ThreadState

end AsyncSqlite
