import AsyncSqlite.Lts.Run
import AsyncSqlite.Thread.Watchdog

/-!
# AsyncSqlite.Thread.Alarm — when the watchdog calls its handler

The alarm is raised for a handler that has run too long (`alarm_for_overrun`),
and falsely in four windows (`false_alarms`):

* the worker loads `m_watchdogTimeout` before `CreateThread` has stored it, and
  sleeps by what it found there;
* the worker has ended, and the object is still registered;
* a handler has returned, and the loop head has not stored the heartbeat;
* `WatchdogCheck` has loaded one of the atomics, and what it says of the thread is
  out of date before the check comes to its test.

`Orderly` is the condition that a run stays out of them.
-/

namespace AsyncSqlite

namespace WatchedThread

variable {l : WatchLabel} {s s' : WatchedThread}

/-- `CreateThread` is not in front of its store to `m_watchdogTimeout`. -/
def published (s : WatchedThread) : Bool :=
  match s.control with
  | .createSpawn _ | .createStart _ | .createAlive _ | .createStore _ _ | .createTimeout _ => false
  | _ => true

/-- The handler has returned and the next heartbeat is not stored. -/
def atReturn (s : WatchedThread) : Bool :=
  match s.worker with
  | .returned _ => true
  | _ => false

/-- A check has loaded a heartbeat that is older than the timeout `T`, which it has
still to load. -/
def Stale (s : WatchedThread) (T : ℕ) : Prop :=
  match s.check with
  | .alive n a => overdue n a T
  | _ => False

instance (s : WatchedThread) (T : ℕ) : Decidable (s.Stale T) := by
  unfold Stale
  split <;> infer_instance

/-- With what it has loaded, and the timeout as it is, a check comes to the alarm. -/
def Alarming (s : WatchedThread) : Prop :=
  match s.check with
  | .timeout n a T => overdue n a T
  | _ => s.Stale s.timeout

instance (s : WatchedThread) : Decidable s.Alarming := by
  unfold Alarming
  split <;> infer_instance

/-- The heartbeat is older than the timeout at the time that the check has read. -/
def Aged (s : WatchedThread) : Prop :=
  match s.check with
  | .clock n => overdue n s.lastAlive s.timeout
  | _ => False

instance (s : WatchedThread) : Decidable s.Aged := by
  unfold Aged
  split <;> infer_instance

/-- The worker loads the timeout after `CreateThread` has stored it. A check that
loads a heartbeat older than the timeout finds neither a worker that has ended, or
that such a `CreateThread` is about to start, nor one between a handler and its
heartbeat; from there to the test the handler neither returns nor calls
`ThreadCheck`. And no timeout is stored that a heartbeat, which a check has loaded
just before, exceeds. -/
def Orderly (l : WatchLabel) (s : WatchedThread) : Prop :=
  match l with
  | .iterate => s.published = true
  | .watchdogAlive => s.Aged → s.published = true ∧ s.stopped = false ∧ s.atReturn = false
  | .handlerReturn | .threadCheck _ => ¬ s.Alarming
  | .createTimeout T => ¬ s.Stale T
  | _ => True

instance (l : WatchLabel) (s : WatchedThread) : Decidable (Orderly l s) := by
  induction l using WatchLabel.casesOn <;> dsimp only [Orderly] <;> infer_instance

/-! ## The invariant -/

/-- `CreateThread` has not been told that the worker runs. -/
def spawning (s : WatchedThread) : Bool :=
  match s.control with
  | .createSpawn _ | .createStart _ => true
  | _ => false

/-- `CreateThread` is not in front of its store to `m_lastAliveTime`. -/
def stored (s : WatchedThread) : Bool :=
  match s.control with
  | .createSpawn _ | .createStart _ | .createAlive _ | .createStore _ _ => false
  | _ => true

theorem phases (hpub : s.published = true) : s.spawning = false ∧ s.stored = true := by
  unfold published at hpub
  unfold spawning stored
  split at hpub <;> simp_all

/-- The timeout of the life that `CreateThread` is about to begin. -/
def Argument (s : WatchedThread) : Prop :=
  match s.control with
  | .createSpawn T | .createStart T | .createAlive T | .createStore T _ =>
    s.period = T.getD s.timeout
  | .createTimeout T => s.period = T
  | _ => True

theorem argument_of_published (hpub : s.published = true) : Argument s := by
  unfold published at hpub
  unfold Argument
  split at hpub <;> simp_all

/-- How old the heartbeat is at most, wherever the worker is. -/
def Beat (s : WatchedThread) : Prop :=
  match s.worker with
  | .loop r =>
    r ≤ s.now ∧ (s.stored = true → r ≤ s.lastAlive) ∧
      (s.period = 0 ∨ 2 * s.now < 2 * r + s.period)
  | .asleep none => s.period = 0
  | .asleep (some d) =>
    d ≤ s.lastAlive + s.period / 10 ∧ (s.period = 0 ∨ 2 * s.now < 2 * d + s.period)
  | .handler r _ => r ≤ s.lastAlive ∧ r ≤ s.now
  | _ => True

structure BeatInv (s : WatchedThread) : Prop where
  argument : Argument s
  /-- before the store the worker has at most come to its loop -/
  early : s.published = false → s.stopped = true ∨ s.atStart = true ∨ ∃ r, s.worker = .loop r
  timeout : s.published = true → s.stopped = false → s.timeout = s.period
  started : s.spawning = false → s.atStart = false
  /-- the reading that `CreateThread` has taken is not before the loop -/
  reading : ∀ T n, s.control = .createStore T n → ∀ r, s.worker = .loop r → r ≤ n
  beat : Beat s

/-- Behind its store `CreateThread` has no reading of the clock. -/
theorem reading_of_published (hpub : s.published = true) :
    ∀ T n, s.control = .createStore T n → ∀ r, s.worker = .loop r → r ≤ n := by
  intro T n hcon
  simp [published, hcon] at hpub

theorem BeatInv.initial (lastAlive timeout : ℕ) : BeatInv (initial lastAlive timeout) :=
  ⟨trivial, by simp [published, WatchedThread.initial], by simp [stopped, WatchedThread.initial],
    fun _ => rfl, by simp [WatchedThread.initial], trivial⟩

/-- A step that leaves the worker and what the worker looks at alone. -/
theorem BeatInv.call (hi : BeatInv s)
    (hcontrol : s'.control = s.control ∨ s.published = true ∧ s'.published = true)
    (hworker : s'.worker = s.worker) (hnow : s'.now = s.now) (halive : s'.lastAlive = s.lastAlive)
    (htimeout : s'.timeout = s.timeout) (hperiod : s'.period = s.period) : BeatInv s' := by
  have hstop : s'.stopped = s.stopped := by rw [stopped, stopped, hworker]
  have hstart : s'.atStart = s.atStart := by rw [atStart, atStart, hworker]
  have hsame : s'.published = s.published ∧ s'.spawning = s.spawning ∧ s'.stored = s.stored ∧
      Argument s' := by
    rcases hcontrol with hcon | ⟨hpub, hpub'⟩
    · have harg := hi.argument
      unfold Argument at harg ⊢
      rw [published, published, spawning, spawning, stored, stored, hcon, htimeout, hperiod]
      exact ⟨rfl, rfl, rfl, harg⟩
    -- behind the store no argument is left to publish
    · rw [hpub, hpub', (phases hpub).1, (phases hpub').1, (phases hpub).2, (phases hpub').2]
      exact ⟨rfl, rfl, rfl, argument_of_published hpub'⟩
  rcases hsame with ⟨hpub, hspawn, hstored, harg⟩
  constructor
  · exact harg
  · rw [hpub, hstop, hstart, hworker]
    exact hi.early
  · rw [hpub, hstop, htimeout, hperiod]
    exact hi.timeout
  · rw [hspawn, hstart]
    exact hi.started
  · rcases hcontrol with hcon | ⟨-, hpub'⟩
    · rw [hcon, hworker]
      exact hi.reading
    · exact reading_of_published hpub'
  · have hbeat := hi.beat
    unfold Beat at hbeat ⊢
    rw [hworker, hnow, halive, hstored, hperiod]
    exact hbeat

/-- The worker moves on in an object whose timeout is published. -/
theorem BeatInv.work (hi : BeatInv s) (hpub : s.published = true) (hrun : s.stopped = false)
    (hcontrol : s'.control = s.control) (hstart : s'.atStart = false)
    (htimeout : s'.timeout = s.timeout) (hperiod : s'.period = s.period) (hbeat : Beat s') :
    BeatInv s' := by
  have hpub' : s'.published = true := by rw [published, hcontrol, ← published, hpub]
  refine ⟨argument_of_published hpub', ?_, ?_, fun _ => hstart, reading_of_published hpub', hbeat⟩
  · rw [hpub']
    simp
  · intro _ _
    rw [htimeout, hperiod]
    exact hi.timeout hpub hrun

/-! ## The worker -/

/-- Behind the wait: the heartbeat has just been stored. -/
theorem take_cases (s : WatchedThread) (empty : WatchPc) :
    ∃ n b, (s.take empty = { s with messages := n, exitMsg := b, worker := .handler s.now false } ∨
      s.take empty = { s with messages := n, exitMsg := b, worker := .finished } ∨
      s.take empty = { s with messages := n, exitMsg := b, worker := empty }) := by
  unfold take
  by_cases hm : 0 < s.messages
  · rw [if_pos hm]
    exact ⟨_, _, Or.inl rfl⟩
  rw [if_neg hm]
  by_cases he : s.exitMsg = true
  · rw [if_pos he]
    exact ⟨_, _, Or.inr (Or.inl rfl)⟩
  rw [if_neg he]
  by_cases hx : s.exit = true
  · rw [if_pos hx]
    exact ⟨_, _, Or.inr (Or.inl rfl)⟩
  · rw [if_neg hx]
    exact ⟨_, _, Or.inr (Or.inr rfl)⟩

/-- A worker that takes a message or leaves, with a fresh heartbeat. -/
theorem BeatInv.take (hi : BeatInv s) (hpub : s.published = true) (hrun : s.stopped = false)
    {empty : WatchPc} (hstart : ∀ r, empty ≠ .starting r)
    (hempty : ∀ n b, Beat { s.heartbeat with messages := n, exitMsg := b, worker := empty }) :
    BeatInv (s.heartbeat.take empty) := by
  rcases take_cases s.heartbeat empty with ⟨n, b, heq | heq | heq⟩
  · rw [heq]
    exact hi.work hpub hrun rfl rfl rfl rfl ⟨Nat.le_refl _, Nat.le_refl _⟩
  · rw [heq]
    exact hi.work hpub hrun rfl rfl rfl rfl trivial
  · rw [heq]
    refine hi.work hpub hrun rfl ?_ rfl rfl (hempty n b)
    cases empty with
    | starting r => exact absurd rfl (hstart r)
    | _ => rfl

theorem BeatInv.iterate (hi : BeatInv s) (hpub : s.published = true) (hg : s.atLoop = true) :
    BeatInv s.iterate := by
  have hrun : s.stopped = false := by
    unfold atLoop at hg
    unfold stopped
    split at hg <;> simp_all
  have htimeout := hi.timeout hpub hrun
  refine hi.take hpub hrun (by simp) fun n b => ?_
  unfold deadline
  -- the deadline is a tenth of the timeout away; without a timeout there is none
  by_cases hpos : 0 < s.timeout
  · simp only [Beat, hpos, if_true, heartbeat]
    rw [htimeout] at hpos ⊢
    constructor
    · omega
    · omega
  · simp only [Beat, hpos, if_false, heartbeat]
    omega

theorem BeatInv.wake (hi : BeatInv s) (hg : s.mayWake) : BeatInv s.wake := by
  unfold mayWake at hg
  split at hg
  · rename_i d hd
    have hrun : s.stopped = false := by simp [stopped, hd]
    -- a worker that sleeps has come past its first loop
    have hpub : s.published = true := by
      by_contra hfalse
      rcases hi.early (by simpa using hfalse) with h | h | ⟨r, h⟩
      · rw [hrun] at h
        cases h
      · simp [atStart, hd] at h
      · rw [hd] at h
        cases h
    refine hi.take hpub hrun (by simp) fun n b => ?_
    simp only [Beat, heartbeat]
    refine ⟨Nat.le_refl _, fun _ => Nat.le_refl _, ?_⟩
    omega
  · exact absurd hg not_false

/-- A worker in a handler has come past the store. -/
theorem BeatInv.handler (hi : BeatInv s) (hg : s.inHandler = true) :
    (∃ r b, s.worker = .handler r b) ∧ s.published = true ∧ s.stopped = false := by
  unfold inHandler at hg
  split at hg
  · rename_i r b hw
    refine ⟨⟨r, b, hw⟩, ?_, by simp [stopped, hw]⟩
    by_contra hfalse
    rcases hi.early (by simpa using hfalse) with h | h | ⟨r', h⟩
    · simp [stopped, hw] at h
    · simp [atStart, hw] at h
    · rw [hw] at h
      cases h
  · cases hg

/-! ## Steps -/

theorem BeatInv.tick (hi : BeatInv s) {t : ℕ} (hle : s.now ≤ t) (hprompt : s.prompt t) :
    BeatInv { s with now := t } := by
  refine ⟨hi.argument, hi.early, hi.timeout, hi.started, hi.reading, ?_⟩
  have hbeat := hi.beat
  have hstored : ({ s with now := t } : WatchedThread).stored = s.stored := rfl
  unfold Beat at hbeat ⊢
  unfold prompt at hprompt
  rw [hstored]
  cases hw : s.worker with
  | loop r =>
    simp only [hw] at hbeat hprompt ⊢
    exact ⟨Nat.le_trans hbeat.1 hle, hbeat.2.1, hprompt⟩
  | asleep d =>
    cases d with
    | none => simpa only [hw] using hbeat
    | some d =>
      simp only [hw] at hbeat hprompt ⊢
      exact ⟨hbeat.1, hprompt⟩
  | handler r b =>
    simp only [hw] at hbeat ⊢
    exact ⟨hbeat.1, Nat.le_trans hbeat.2 hle⟩
  | notStarted | starting | returned | finished => trivial

/-- `CreateThread` on an object without a worker. -/
theorem BeatInv.create (hstop : s.stopped = true) (T : Option ℕ) :
    BeatInv { s with exit := false, control := .createSpawn T, period := T.getD s.timeout } := by
  refine ⟨rfl, fun _ => Or.inl hstop, by simp [published], by simp [spawning], by simp, ?_⟩
  unfold stopped at hstop
  unfold Beat
  dsimp only
  split at hstop
  · rename_i hw
    rw [hw]
    trivial
  · rename_i hw
    rw [hw]
    trivial
  · cases hstop

/-- Before `CreateThread` stores the heartbeat the worker has come to its loop at most. -/
theorem BeatInv.before (hi : BeatInv s) (hpub : s.published = false) (hspawn : s.spawning = false) :
    s.stopped = true ∨ ∃ r, s.worker = .loop r := by
  rcases hi.early hpub with hstop | hstart | hloop
  · exact Or.inl hstop
  · rw [hi.started hspawn] at hstart
    cases hstart
  · exact Or.inr hloop

/-- `CreateThread` reads the clock for the heartbeat. -/
theorem BeatInv.read (hi : BeatInv s) {T : Option ℕ} (hcon : s.control = .createAlive T) :
    BeatInv { s with control := .createStore T s.now } := by
  have hpub : s.published = false := by simp [published, hcon]
  have hspawn : s.spawning = false := by simp [spawning, hcon]
  have hstored : s.stored = false := by simp [stored, hcon]
  have harg := hi.argument
  simp only [Argument, hcon] at harg
  have hbeat := hi.beat
  unfold Beat at hbeat
  refine ⟨harg, fun _ => hi.early hpub, by simp [published], fun _ => hi.started hspawn, ?_, ?_⟩
  · intro T' n heq r hw
    have hn : s.now = n := (WatchControl.createStore.inj heq).2
    have hloop : s.worker = .loop r := hw
    simp only [hloop] at hbeat
    rw [← hn]
    exact hbeat.1
  · unfold Beat
    rw [show ({ s with control := .createStore T s.now } : WatchedThread).stored = s.stored from
      hstored.symm]
    exact hbeat

/-- The store to `m_lastAliveTime` by `CreateThread`. -/
theorem BeatInv.store (hi : BeatInv s) {T : Option ℕ} {n : ℕ}
    (hcon : s.control = .createStore T n) {c : WatchControl}
    (hc : c = .idle ∧ T = none ∨ ∃ t, c = .createTimeout t ∧ T = some t) :
    BeatInv { s with lastAlive := n, control := c } := by
  have hpub : s.published = false := by simp [published, hcon]
  have hspawn : s.spawning = false := by simp [spawning, hcon]
  have harg := hi.argument
  simp only [Argument, hcon] at harg
  have hread := hi.reading T n hcon
  constructor
  · rcases hc with ⟨rfl, rfl⟩ | ⟨t, rfl, rfl⟩
    · trivial
    · exact harg
  · exact fun _ => hi.early hpub
  · intro hpub' _
    rcases hc with ⟨rfl, rfl⟩ | ⟨t, rfl, rfl⟩
    · exact harg.symm
    · cases hpub'
  · exact fun _ => hi.started hspawn
  · rcases hc with ⟨rfl, rfl⟩ | ⟨t, rfl, rfl⟩
    · simp
    · simp
  · have hbeat := hi.beat
    unfold Beat at hbeat ⊢
    rcases hi.before hpub hspawn with hstop | ⟨r, hw⟩
    · unfold stopped at hstop
      split at hstop <;> simp_all
    · simp only [hw] at hbeat ⊢
      exact ⟨hbeat.1, fun _ => hread r hw, hbeat.2.2⟩

/-- The store to `m_watchdogTimeout`. -/
theorem BeatInv.publish (hi : BeatInv s) {T : ℕ} (hcon : s.control = .createTimeout T) :
    BeatInv { s with timeout := T, control := .createRegister } := by
  have hpub : s.published = false := by simp [published, hcon]
  have hspawn : s.spawning = false := by simp [spawning, hcon]
  have hstored : s.stored = true := by simp [stored, hcon]
  have harg := hi.argument
  simp only [Argument, hcon] at harg
  refine ⟨trivial, by simp [published], fun _ _ => harg.symm, fun _ => hi.started hspawn,
    by simp, ?_⟩
  have hbeat := hi.beat
  unfold Beat at hbeat ⊢
  rw [hstored] at hbeat
  exact hbeat

theorem BeatInv.begin (hi : BeatInv s) (hg : s.atStart = true) :
    BeatInv { s with worker := .loop s.now } := by
  -- `Process` begins in front of the first store of `CreateThread`
  have hspawn : s.spawning = true := by
    by_contra hfalse
    rw [hi.started (by simpa using hfalse)] at hg
    cases hg
  have hpub : s.published = false := by
    by_contra htrue
    rw [(phases (by simpa using htrue)).1] at hspawn
    cases hspawn
  have hstored : s.stored = false := by
    unfold spawning at hspawn
    unfold stored
    split at hspawn <;> simp_all
  have hreading : ∀ T n, s.control ≠ .createStore T n := by
    intro T n hcon
    simp [spawning, hcon] at hspawn
  refine ⟨hi.argument, fun _ => Or.inr (Or.inr ⟨s.now, rfl⟩), ?_, fun _ => rfl,
    fun T n hcon => absurd hcon (hreading T n), ?_⟩
  · intro hpub'
    have htrue : s.published = true := hpub'
    rw [hpub] at htrue
    cases htrue
  · refine ⟨Nat.le_refl _, ?_, by dsimp only; omega⟩
    intro hstored'
    have htrue : s.stored = true := hstored'
    rw [hstored] at htrue
    cases htrue

theorem BeatInv.step (hi : BeatInv s) (hg : guard l s) (hok : Orderly l s) :
    BeatInv (update l s) := by
  have hg' := hg.2
  cases l with
  -- `CreateThread`, one store at a time
  | createThread T =>
    simp only [update]
    by_cases hth : s.thread = true
    · rw [if_pos hth]
      exact hi
    · rw [if_neg hth]
      exact BeatInv.create (hg'.2.resolve_left hth) T
  | createSpawn T =>
    have harg := hi.argument
    simp only [Argument, show s.control = .createSpawn T from hg'] at harg
    exact ⟨harg, fun _ => Or.inr (Or.inl rfl), by simp [published, update],
      by simp [spawning, update], by simp [update], trivial⟩
  | createStart T =>
    have hpub : s.published = false := by simp [published, hg'.1]
    have harg := hi.argument
    simp only [Argument, hg'.1] at harg
    refine ⟨harg, fun _ => hi.early hpub, by simp [published, update], fun _ => hg'.2,
      by simp [update], ?_⟩
    have hbeat := hi.beat
    have hstored : (update (.createStart T) s).stored = s.stored := by
      simp [stored, update, hg'.1]
    unfold Beat at hbeat ⊢
    rw [hstored]
    exact hbeat
  | createAlive T => exact hi.read hg'
  | createStore T n =>
    cases T with
    | none => exact hi.store hg' (Or.inl ⟨rfl, rfl⟩)
    | some T => exact hi.store hg' (Or.inr ⟨T, rfl, rfl⟩)
  | createTimeout T => exact hi.publish hg'
  | createRegister =>
    have hcon : s.control = .createRegister := hg'.1
    exact hi.call (Or.inr ⟨by simp [published, hcon], rfl⟩) rfl rfl rfl rfl rfl
  -- `ExitThread` touches nothing that the worker measures
  | exitThread =>
    have hcon : s.control = .idle := hg'
    simp only [update]
    split
    · exact hi.call (Or.inr ⟨by simp [published, hcon], rfl⟩) rfl rfl rfl rfl rfl
    · exact hi
  | exitPush =>
    have hcon : s.control = .exitPush := hg'
    exact hi.call (Or.inr ⟨by simp [published, hcon], rfl⟩) rfl rfl rfl rfl rfl
  | exitJoin => exact hi.call (Or.inr ⟨by simp [published, hg'.1], rfl⟩) rfl rfl rfl rfl rfl
  | exitReset =>
    have hcon : s.control = .exitReset := hg'
    exact hi.call (Or.inr ⟨by simp [published, hcon], rfl⟩) rfl rfl rfl rfl rfl
  | selfExit =>
    rcases hi.handler hg'.2.2 with ⟨⟨r, b, hw⟩, hpub, hrun⟩
    have hbeat := hi.beat
    simp only [Beat, hw] at hbeat
    simp only [update, hw]
    exact hi.work hpub hrun rfl rfl rfl rfl hbeat
  | dispatch => exact hi.call (Or.inl rfl) rfl rfl rfl rfl rfl
  -- the worker stores a heartbeat, or keeps the one that it has
  | processStart => exact hi.begin hg'
  | iterate => exact hi.iterate hok hg'
  | wake => exact hi.wake hg'
  | handlerReturn =>
    rcases hi.handler hg' with ⟨⟨r, b, hw⟩, hpub, hrun⟩
    simp only [update, hw]
    cases b with
    | true => exact hi.work hpub hrun rfl rfl rfl rfl trivial
    | false => exact hi.work hpub hrun rfl rfl rfl rfl trivial
  | threadCheck t =>
    have hcheck : s.mayCheck t := hg'
    unfold mayCheck at hcheck
    split at hcheck
    · rename_i r b hw
      rcases hi.handler (by simp [inHandler, hw]) with ⟨-, hpub, hrun⟩
      simp only [update, hw]
      exact hi.work hpub hrun rfl rfl rfl rfl ⟨Nat.le_refl _, hcheck.2⟩
    · exact absurd hcheck not_false
  | watchdogCheck => exact hi.call (Or.inl rfl) rfl rfl rfl rfl rfl
  | watchdogAlive =>
    simp only [update, watchdogAlive]
    split
    · exact hi.call (Or.inl rfl) rfl rfl rfl rfl rfl
    · exact hi
  | watchdogTimeout =>
    simp only [update, watchdogTimeout]
    split
    · exact hi.call (Or.inl rfl) rfl rfl rfl rfl rfl
    · exact hi
  | watchdogTest =>
    simp only [update, watchdogTest]
    split
    · split
      all_goals exact hi.call (Or.inl rfl) rfl rfl rfl rfl rfl
    · exact hi
  | tick t => exact hi.tick hg'.1 hg'.2

theorem beat_of_reachable (hr : watchdogLts.ReachableWhen Orderly s) : BeatInv s := by
  refine hr.induct (P := BeatInv) ?_ ?_
  · rintro s ⟨lastAlive, timeout, rfl⟩
    exact .initial lastAlive timeout
  · intro l s _ hg hok hi
    exact hi.step hg hok

/-! ## The check -/

/-- Away from the windows only a handler lets the heartbeat grow older than the
timeout. -/
theorem BeatInv.handler_of_overdue (hi : BeatInv s) (hpub : s.published = true)
    (hrun : s.stopped = false) (hreturn : s.atReturn = false) {n : ℕ} (hn : n ≤ s.now)
    (hold : overdue n s.lastAlive s.timeout) :
    ∃ r b, s.worker = .handler r b ∧ r ≤ s.lastAlive := by
  have htimeout := hi.timeout hpub hrun
  have hbeat := hi.beat
  rcases hold with ⟨hpos, hold⟩
  unfold Beat at hbeat
  cases hw : s.worker with
  | notStarted => simp [stopped, hw] at hrun
  | finished => simp [stopped, hw] at hrun
  | returned r => simp [atReturn, hw] at hreturn
  -- `CreateThread` has waited for the start
  | starting r =>
    have hstart := hi.started (phases hpub).1
    simp [atStart, hw] at hstart
  -- the loop goes on within half the timeout
  | loop r =>
    simp only [hw] at hbeat
    have hle := hbeat.2.1 (phases hpub).2
    have hdelay := hbeat.2.2
    omega
  | asleep d =>
    cases d with
    | none =>
      simp only [hw] at hbeat
      omega
    | some d =>
      simp only [hw] at hbeat
      have hdelay := hbeat.2
      omega
  | handler r b =>
    simp only [hw] at hbeat
    exact ⟨r, b, rfl, hbeat.1⟩

/-- What a check has seen if it comes to the alarm: a worker in a handler, with the
heartbeat of its pop or of its last `ThreadCheck`, or of an earlier one. -/
def CheckInv (s : WatchedThread) : Prop :=
  match s.check with
  | .idle => True
  | .clock n => n ≤ s.now
  | .alive n a =>
    n ≤ s.now ∧ (overdue n a s.timeout → ∃ r b, s.worker = .handler r b ∧ r ≤ a)
  | .timeout n a T =>
    n ≤ s.now ∧ (overdue n a T → T = s.timeout ∧ ∃ r b, s.worker = .handler r b ∧ r ≤ a)

/-- A step that does not end a handler. -/
theorem CheckInv.keep (h : CheckInv s) (hcheck : s'.check = s.check) (hnow : s.now ≤ s'.now)
    (htimeout : s'.timeout = s.timeout)
    (hworker : ∀ r b, s.worker = .handler r b → ∃ b', s'.worker = .handler r b') :
    CheckInv s' := by
  unfold CheckInv at h ⊢
  rw [hcheck]
  split at h
  · trivial
  · exact Nat.le_trans h hnow
  · refine ⟨Nat.le_trans h.1 hnow, fun hold => ?_⟩
    rw [htimeout] at hold
    rcases h.2 hold with ⟨r, b, hw, hle⟩
    rcases hworker r b hw with ⟨b', hw'⟩
    exact ⟨r, b', hw', hle⟩
  · refine ⟨Nat.le_trans h.1 hnow, fun hold => ?_⟩
    rcases h.2 hold with ⟨hT, r, b, hw, hle⟩
    rcases hworker r b hw with ⟨b', hw'⟩
    exact ⟨hT.trans htimeout.symm, r, b', hw', hle⟩

/-- A step while no check comes to the alarm. -/
theorem CheckInv.quiet (h : CheckInv s) (hquiet : ¬ s.Alarming) (hcheck : s'.check = s.check)
    (hnow : s'.now = s.now) (htimeout : s'.timeout = s.timeout) : CheckInv s' := by
  unfold Alarming at hquiet
  unfold CheckInv at h ⊢
  rw [hcheck, hnow, htimeout]
  split at h
  · trivial
  · exact h
  · rename_i n a hc
    simp only [hc, Stale] at hquiet
    exact ⟨h.1, fun hold => absurd hold hquiet⟩
  · rename_i n a T hc
    simp only [hc] at hquiet
    exact ⟨h.1, fun hold => absurd hold hquiet⟩

/-- The load of the heartbeat. -/
theorem CheckInv.alive (h : CheckInv s) (hi : BeatInv s) (hok : Orderly .watchdogAlive s) :
    CheckInv s.watchdogAlive := by
  unfold watchdogAlive
  split
  · rename_i n hc
    simp only [CheckInv, hc] at h
    refine ⟨h, fun hold => ?_⟩
    have haged : s.Aged := by
      unfold Aged
      rw [hc]
      exact hold
    rcases hok haged with ⟨hpub, hrun, hreturn⟩
    exact hi.handler_of_overdue hpub hrun hreturn h hold
  · exact h

/-- The load of the timeout. -/
theorem CheckInv.loaded (h : CheckInv s) : CheckInv s.watchdogTimeout := by
  unfold watchdogTimeout
  split
  · rename_i n a hc
    simp only [CheckInv, hc] at h
    exact ⟨h.1, fun hold => ⟨rfl, h.2 hold⟩⟩
  · exact h

/-- A worker that is not in a handler does what it does. -/
theorem CheckInv.outside (h : CheckInv s) (hout : s.inHandler = false)
    (hcheck : s'.check = s.check) (hnow : s.now ≤ s'.now) (htimeout : s'.timeout = s.timeout) :
    CheckInv s' := by
  refine h.keep hcheck hnow htimeout ?_
  intro r b hw
  simp [inHandler, hw] at hout

/-- `CreateThread` stores a timeout that no loaded heartbeat exceeds. -/
theorem CheckInv.publish (h : CheckInv s) (hi : BeatInv s) {T : ℕ}
    (hcon : s.control = .createTimeout T) (hok : ¬ s.Stale T) :
    CheckInv { s with timeout := T, control := .createRegister } := by
  have hpub : s.published = false := by simp [published, hcon]
  unfold CheckInv at h ⊢
  dsimp only
  split at h
  · trivial
  · exact h
  · rename_i n a hc
    refine ⟨h.1, fun hold => absurd ?_ hok⟩
    unfold Stale
    rw [hc]
    exact hold
  · refine ⟨h.1, fun hold => ?_⟩
    -- a worker in a handler has come past this store
    rcases h.2 hold with ⟨-, r, b, hw, -⟩
    have htrue := (hi.handler (by simp [inHandler, hw])).2.1
    rw [hpub] at htrue
    cases htrue

theorem CheckInv.step (h : CheckInv s) (hi : BeatInv s) (hg : guard l s) (hok : Orderly l s) :
    CheckInv (update l s) := by
  have hg' := hg.2
  have hsame : ∀ {s' : WatchedThread}, s'.check = s.check → s'.now = s.now →
      s'.timeout = s.timeout → s'.worker = s.worker → CheckInv s' := by
    intro s' hcheck hnow htimeout hworker
    refine h.keep hcheck (Nat.le_of_eq hnow.symm) htimeout fun r b hw => ⟨b, ?_⟩
    rw [hworker, hw]
  cases l with
  | createThread T =>
    simp only [update]
    split
    · exact h
    · exact hsame rfl rfl rfl rfl
  | createSpawn T =>
    -- the worker has not come to a handler of the last life either
    have hout : s.inHandler = false := by
      by_contra hin
      have hpub := (hi.handler (by simpa using hin)).2.1
      simp [published, show s.control = .createSpawn T from hg'] at hpub
    exact h.outside hout rfl (Nat.le_refl _) rfl
  | createStart T | createAlive T => exact hsame rfl rfl rfl rfl
  | createStore T n => cases T <;> exact hsame rfl rfl rfl rfl
  | createTimeout T => exact h.publish hi hg' hok
  | createRegister | exitPush | exitJoin | exitReset | dispatch => exact hsame rfl rfl rfl rfl
  | exitThread =>
    simp only [update]
    split
    · exact hsame rfl rfl rfl rfl
    · exact h
  | selfExit =>
    simp only [update]
    split
    · rename_i r b hw
      refine h.keep rfl (Nat.le_refl _) rfl fun r' b' hw' => ⟨true, ?_⟩
      rw [hw] at hw'
      rw [(WatchPc.handler.inj hw').1]
    · exact h
  | processStart =>
    have hstart : s.atStart = true := hg'
    have hout : s.inHandler = false := by
      unfold atStart at hstart
      unfold inHandler
      split at hstart <;> simp_all
    exact h.outside hout rfl (Nat.le_refl _) rfl
  | iterate =>
    have hloop : s.atLoop = true := hg'
    have hout : s.inHandler = false := by
      unfold atLoop at hloop
      unfold inHandler
      split at hloop <;> simp_all
    rcases take_cases s.heartbeat (.asleep s.deadline) with ⟨n, b, heq | heq | heq⟩
    all_goals
      simp only [update, iterate, heq]
      exact h.outside hout rfl (Nat.le_refl _) rfl
  | wake =>
    have hwake : s.mayWake := hg'
    have hout : s.inHandler = false := by
      unfold mayWake at hwake
      unfold inHandler
      split at hwake <;> simp_all
    rcases take_cases s.heartbeat (.loop s.now) with ⟨n, b, heq | heq | heq⟩
    all_goals
      simp only [update, wake, heq]
      exact h.outside hout rfl (Nat.le_refl _) rfl
  | handlerReturn =>
    simp only [update]
    split
    all_goals exact h.quiet hok rfl rfl rfl
  | threadCheck t =>
    simp only [update]
    split
    · exact h.quiet hok rfl rfl rfl
    · exact h
  | watchdogCheck => exact Nat.le_refl s.now
  | watchdogAlive => exact h.alive hi hok
  | watchdogTimeout => exact h.loaded
  | watchdogTest =>
    simp only [update, watchdogTest]
    split
    · split
      all_goals trivial
    · exact h
  | tick t => exact h.keep rfl hg'.1 rfl fun r b hw => ⟨b, hw⟩

theorem check_of_reachable (hr : watchdogLts.ReachableWhen Orderly s) : CheckInv s := by
  refine hr.induct (P := CheckInv) ?_ ?_
  · rintro s ⟨lastAlive, timeout, rfl⟩
    trivial
  · intro l s hr hg hok h
    exact h.step (beat_of_reachable hr) hg hok

/-! ## The alarm -/

/-- **No false alarm.** In a run that stays out of the four windows the watchdog calls
its handler only while the worker is in a message handler that has run for longer than
the timeout without `ThreadCheck`. -/
theorem alarm_for_overrun (hr : watchdogLts.ReachableWhen Orderly s)
    (hg : guard .watchdogTest s) (halarm : (update .watchdogTest s).alarmed = true) :
    ∃ r b, s.worker = .handler r b ∧ s.timeout < s.now - r := by
  have hcheck := check_of_reachable hr
  have hsilent : s.alarmed = false := hg.1
  simp only [update, watchdogTest] at halarm
  split at halarm
  · rename_i n a T hc
    simp only [CheckInv, hc] at hcheck
    split at halarm
    · rename_i hold
      rcases hcheck.2 hold with ⟨rfl, r, b, hw, hle⟩
      have hn := hcheck.1
      have hlong := hold.2
      exact ⟨r, b, hw, by omega⟩
    · rw [hsilent] at halarm
      cases halarm
  · rw [hsilent] at halarm
    cases halarm

/-- A thread with a timeout is created and comes to its loop. -/
def createRun (T : ℕ) : List WatchLabel :=
  [.createThread (some T), .createSpawn (some T), .processStart, .createStart (some T),
    .createAlive (some T), .createStore (some T) 0, .createTimeout T, .createRegister]

/-- A check up to its test. -/
def checkRun : List WatchLabel := [.watchdogCheck, .watchdogAlive, .watchdogTimeout]

/-- The worker sleeps, wakes up in time, and runs a handler for too long. -/
def overrunRun : List WatchLabel :=
  createRun 10 ++ [WatchLabel.iterate, .tick 5, .watchdogCheck, .watchdogAlive, .wake, .tick 6,
    .watchdogTimeout, .watchdogTest, .iterate, .dispatch, .wake, .tick 12, .threadCheck 12,
    .tick 22] ++ checkRun ++ [WatchLabel.watchdogTest, .tick 23] ++ checkRun

theorem alarm_for_overrun_run :
    ∃ s, watchdogLts.ReachableWhen Orderly s ∧ (update .watchdogTest s).alarmed = true ∧
      ∃ r b, s.worker = .handler r b ∧ s.timeout < s.now - r := by
  obtain ⟨s, hr, hp⟩ := watchdogLts.execWhen_reachable Orderly ⟨0, 0, rfl⟩ overrunRun
    (fun s => guard .watchdogTest s ∧ (update .watchdogTest s).alarmed = true) (by decide)
  obtain ⟨hg, halarm⟩ : _ ∧ _ := of_decide_eq_true hp
  exact ⟨s, hr, halarm, alarm_for_overrun hr hg halarm⟩

/-- The worker loads the timeout before it is published. -/
def idleRun : List WatchLabel :=
  [.createThread (some 10), .createSpawn (some 10), .processStart, .iterate,
    .createStart (some 10), .createAlive (some 10), .createStore (some 10) 0, .createTimeout 10,
    .createRegister, .tick 11] ++ checkRun

/-- The thread has been exited. -/
def exitedRun : List WatchLabel :=
  createRun 10 ++ [WatchLabel.iterate, .exitThread, .exitPush, .wake, .exitJoin, .exitReset,
    .tick 11] ++ checkRun

/-- A handler runs for 8 and the next loop iteration is delayed by 4. -/
def returnedRun : List WatchLabel :=
  createRun 10 ++ [WatchLabel.dispatch, .iterate, .tick 8, .handlerReturn, .tick 12] ++ checkRun

/-- A thread with a timeout of 200 that has slept for 100 is exited, and created with a
timeout of 10, between the two loads of a check. -/
def reloadRun : List WatchLabel :=
  createRun 200 ++ [WatchLabel.iterate, .tick 100, .watchdogCheck, .watchdogAlive, .exitThread,
    .exitPush, .wake, .exitJoin, .exitReset, .createThread (some 10), .createSpawn (some 10),
    .processStart, .createStart (some 10), .createAlive (some 10), .createStore (some 10) 100,
    .createTimeout 10, .watchdogTimeout]

/-- The watchdog calls its handler for a thread that waits for messages, for a thread
that has exited, for a thread whose handler has returned in time, and for a thread that
was created just now. -/
theorem false_alarms :
    (∃ s, watchdogLts.Reachable s ∧ guard .watchdogTest s ∧
      (update .watchdogTest s).alarmed = true ∧ s.worker = .asleep none ∧ s.messages = 0) ∧
    (∃ s, watchdogLts.Reachable s ∧ guard .watchdogTest s ∧
      (update .watchdogTest s).alarmed = true ∧ s.worker = .finished ∧ s.thread = false) ∧
    (∃ s, watchdogLts.Reachable s ∧ guard .watchdogTest s ∧
      (update .watchdogTest s).alarmed = true ∧ s.worker = .returned 8) ∧
    ∃ s, watchdogLts.Reachable s ∧ guard .watchdogTest s ∧
      (update .watchdogTest s).alarmed = true ∧ s.worker = .loop 100 ∧ s.now = 100 := by
  refine ⟨?_, ?_, ?_, ?_⟩
  · obtain ⟨s, hr, hp⟩ := watchdogLts.execWhen_reachable Lts.always ⟨0, 0, rfl⟩ idleRun
      (fun s => guard .watchdogTest s ∧ (update .watchdogTest s).alarmed = true ∧
        s.worker = .asleep none ∧ s.messages = 0) (by decide)
    exact ⟨s, hr, of_decide_eq_true hp⟩
  · obtain ⟨s, hr, hp⟩ := watchdogLts.execWhen_reachable Lts.always ⟨0, 0, rfl⟩ exitedRun
      (fun s => guard .watchdogTest s ∧ (update .watchdogTest s).alarmed = true ∧
        s.worker = .finished ∧ s.thread = false) (by decide)
    exact ⟨s, hr, of_decide_eq_true hp⟩
  · obtain ⟨s, hr, hp⟩ := watchdogLts.execWhen_reachable Lts.always ⟨0, 0, rfl⟩ returnedRun
      (fun s => guard .watchdogTest s ∧ (update .watchdogTest s).alarmed = true ∧
        s.worker = .returned 8) (by decide)
    exact ⟨s, hr, of_decide_eq_true hp⟩
  · obtain ⟨s, hr, hp⟩ := watchdogLts.execWhen_reachable Lts.always ⟨0, 0, rfl⟩ reloadRun
      (fun s => guard .watchdogTest s ∧ (update .watchdogTest s).alarmed = true ∧
        s.worker = .loop 100 ∧ s.now = 100) (by decide)
    exact ⟨s, hr, of_decide_eq_true hp⟩

end WatchedThread

end AsyncSqlite
