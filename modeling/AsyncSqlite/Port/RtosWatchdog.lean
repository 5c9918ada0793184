import AsyncSqlite.Lts.Core
import Mathlib.Algebra.Group.Nat.Defs

/-!
# AsyncSqlite.Port.RtosWatchdog — the watchdog of a FreeRTOS `Thread`

`WatchdogCheck` of `port/os/freertos/Thread.cpp` loads the clock, then
`m_lastAliveTime`, and subtracts them in 32 bits. The difference is the age of
the heartbeat as long as the heartbeat is the older of the two. A heartbeat of a
later clock value that lands between the loads makes it wrap.

Reading guide:

* The clock is a counter of milliseconds without a bound. What the code keeps of
  it is truncated to `uint32_t`; `heartbeat`, `began` and `pending` say which
  value was truncated.
* `Run` at its loop head and `ThreadCheck` store a heartbeat in two steps,
  reading the clock and storing what was read. Both run on the worker. When the
  worker does so is left open.
* The state begins behind `CreateThread`, which stores the first heartbeat before
  the thread is in the registry. `m_watchdogTimeout` does not change after that.
* `WatchdogCheckAll` holds the watchdog lock, so there is one check at a time.
  `WatchdogHandler` does not return.
-/

namespace AsyncSqlite

/-- `WatchdogCheck` behind its first load. -/
structure RtosCheck where
  /-- the local `now` -/
  now : UInt32
  /-- the clock when it was loaded -/
  began : ℕ
  /-- the latest heartbeat at that moment -/
  heartbeat : ℕ
deriving DecidableEq, Repr

structure RtosWatchdog where
  clock : ℕ
  /-- `m_lastAliveTime` -/
  lastAlive : UInt32
  /-- the clock value of the latest heartbeat -/
  heartbeat : ℕ
  /-- the worker has read the clock for a heartbeat -/
  pending : Option ℕ
  check : Option RtosCheck
  /-- the check that called `WatchdogHandler` -/
  alarm : Option RtosCheck
deriving DecidableEq, Repr

inductive RtosWatchLabel where
  | tick (n : ℕ)
  /-- `Timer::GetNow()` on the way to a heartbeat -/
  | readClock
  /-- `m_lastAliveTime.store` -/
  | storeAlive
  /-- the load of `now` -/
  | loadNow
  /-- the load of `m_lastAliveTime`, with the test -/
  | loadAlive
deriving DecidableEq, Repr

namespace RtosWatchdog

/-- The test of `WatchdogCheck`. -/
def expired (watchdogTimeout now lastAlive : UInt32) : Prop :=
  0 < watchdogTimeout ∧ watchdogTimeout < now - lastAlive

instance (t n a : UInt32) : Decidable (expired t n a) := inferInstanceAs (Decidable (_ ∧ _))

/-- Behind `CreateThread`. -/
def created (clock : ℕ) : RtosWatchdog where
  clock := clock
  lastAlive := UInt32.ofNat clock
  heartbeat := clock
  pending := none
  check := none
  alarm := none

def storeAlive (s : RtosWatchdog) (v : ℕ) : RtosWatchdog :=
  { s with lastAlive := UInt32.ofNat v, heartbeat := v, pending := none }

def loadNow (s : RtosWatchdog) : RtosWatchdog :=
  { s with check := some ⟨UInt32.ofNat s.clock, s.clock, s.heartbeat⟩ }

def loadAlive (s : RtosWatchdog) (watchdogTimeout : UInt32) (c : RtosCheck) : RtosWatchdog :=
  if expired watchdogTimeout c.now s.lastAlive then { s with check := none, alarm := some c }
  else { s with check := none }

def guard (l : RtosWatchLabel) (s : RtosWatchdog) : Prop :=
  match l with
  | .tick _ => True
  | .readClock => s.pending = none
  | .storeAlive => s.pending.isSome = true
  | .loadNow => s.check = none ∧ s.alarm = none
  | .loadAlive => s.check.isSome = true

instance (l : RtosWatchLabel) (s : RtosWatchdog) : Decidable (guard l s) := by
  cases l <;> unfold guard <;> infer_instance

def update (watchdogTimeout : UInt32) (l : RtosWatchLabel) (s : RtosWatchdog) : RtosWatchdog :=
  match l with
  | .tick n => { s with clock := s.clock + n }
  | .readClock => { s with pending := some s.clock }
  | .storeAlive => s.pending.elim s s.storeAlive
  | .loadNow => s.loadNow
  | .loadAlive => s.check.elim s (s.loadAlive watchdogTimeout)

end RtosWatchdog

def rtosWatchdogLts (watchdogTimeout : UInt32) : Lts RtosWatchdog RtosWatchLabel where
  init s := ∃ clock, s = RtosWatchdog.created clock
  guard := RtosWatchdog.guard
  update := RtosWatchdog.update watchdogTimeout

instance (t : UInt32) (l : RtosWatchLabel) (s : RtosWatchdog) :
    Decidable ((rtosWatchdogLts t).guard l s) :=
  inferInstanceAs (Decidable (RtosWatchdog.guard l s))

namespace RtosWatchdog

variable {watchdogTimeout : UInt32} {l : RtosWatchLabel} {s : RtosWatchdog} {c : RtosCheck}

/-! ## The arithmetic -/

/-- A heartbeat that is not later than `now`: the test compares with its age, of
which a wrap can only take away. -/
theorem expired_of_le {n v : ℕ} (h : v ≤ n) :
    expired watchdogTimeout (UInt32.ofNat n) (UInt32.ofNat v) ↔
      0 < watchdogTimeout.toNat ∧ watchdogTimeout.toNat < (n - v) % 2 ^ 32 := by
  unfold expired
  rw [UInt32.lt_iff_toNat_lt, UInt32.lt_iff_toNat_lt, UInt32.toNat_sub, UInt32.toNat_ofNat',
    UInt32.toNat_ofNat']
  have hzero : (0 : UInt32).toNat = 0 := rfl
  have hdelta : (2 ^ 32 - v % 2 ^ 32 + n % 2 ^ 32) % 2 ^ 32 = (n - v) % 2 ^ 32 := by omega
  rw [hzero, hdelta]

/-- A heartbeat that is later than `now`: the difference is what is missing to
the next multiple of 2^32. -/
theorem expired_of_lt {n v : ℕ} (h : n < v) :
    expired watchdogTimeout (UInt32.ofNat n) (UInt32.ofNat v) ↔
      0 < watchdogTimeout.toNat ∧ 0 < (v - n) % 2 ^ 32 ∧
        (v - n) % 2 ^ 32 + watchdogTimeout.toNat < 2 ^ 32 := by
  unfold expired
  rw [UInt32.lt_iff_toNat_lt, UInt32.lt_iff_toNat_lt, UInt32.toNat_sub, UInt32.toNat_ofNat',
    UInt32.toNat_ofNat']
  have hzero : (0 : UInt32).toNat = 0 := rfl
  have hdelta : (2 ^ 32 - v % 2 ^ 32 + n % 2 ^ 32) % 2 ^ 32 =
      (2 ^ 32 - (v - n) % 2 ^ 32) % 2 ^ 32 := by omega
  rw [hzero, hdelta]
  omega

/-! ## The invariant -/

structure ClockInv (s : RtosWatchdog) : Prop where
  lastAlive : s.lastAlive = UInt32.ofNat s.heartbeat
  heartbeat : s.heartbeat ≤ s.clock
  pending : ∀ v, s.pending = some v → s.heartbeat ≤ v ∧ v ≤ s.clock
  now : ∀ c, s.check = some c → c.now = UInt32.ofNat c.began
  began : ∀ c, s.check = some c → c.began ≤ s.clock
  latest : ∀ c, s.check = some c → c.heartbeat ≤ c.began ∧ c.heartbeat ≤ s.heartbeat

theorem ClockInv.created (clock : ℕ) : ClockInv (created clock) :=
  ⟨rfl, Nat.le_refl _, by simp [RtosWatchdog.created], by simp [RtosWatchdog.created],
    by simp [RtosWatchdog.created], by simp [RtosWatchdog.created]⟩

theorem ClockInv.tick (h : ClockInv s) (n : ℕ) :
    ClockInv (update watchdogTimeout (.tick n) s) := by
  refine ⟨h.lastAlive, ?_, ?_, h.now, ?_, h.latest⟩
  · have := h.heartbeat
    simp only [update]
    omega
  · intro v hv
    have := h.pending v hv
    simp only [update]
    omega
  · intro c hc
    have := h.began c hc
    simp only [update]
    omega

/-- The worker stores what it read, which is not older than the heartbeat before. -/
theorem ClockInv.storeAlive (h : ClockInv s) {v : ℕ} (hv : s.pending = some v) :
    ClockInv (s.storeAlive v) := by
  have hle := h.pending v hv
  refine ⟨rfl, hle.2, by simp [RtosWatchdog.storeAlive], h.now, h.began, ?_⟩
  intro c hc
  have := h.latest c hc
  exact ⟨this.1, Nat.le_trans this.2 hle.1⟩

theorem ClockInv.loadNow (h : ClockInv s) : ClockInv s.loadNow := by
  refine ⟨h.lastAlive, h.heartbeat, h.pending, ?_, ?_, ?_⟩
  · intro c hc
    cases hc
    rfl
  · intro c hc
    cases hc
    exact Nat.le_refl _
  · intro c hc
    cases hc
    exact ⟨h.heartbeat, Nat.le_refl _⟩

/-- The check is over; what the invariant says about it is void. -/
theorem ClockInv.checked (h : ClockInv s) (a : Option RtosCheck) :
    ClockInv { s with check := none, alarm := a } :=
  ⟨h.lastAlive, h.heartbeat, h.pending, by simp, by simp, by simp⟩

theorem ClockInv.loadAlive (h : ClockInv s) : ClockInv (s.loadAlive watchdogTimeout c) := by
  unfold RtosWatchdog.loadAlive
  split
  · exact h.checked (some c)
  · exact h.checked s.alarm

theorem ClockInv.step (h : ClockInv s) (hg : guard l s) :
    ClockInv (update watchdogTimeout l s) := by
  cases l with
  | tick n => exact h.tick n
  | readClock =>
    refine ⟨h.lastAlive, h.heartbeat, ?_, h.now, h.began, h.latest⟩
    intro v hv
    cases hv
    exact ⟨h.heartbeat, Nat.le_refl _⟩
  | storeAlive =>
    obtain ⟨v, hv⟩ := Option.isSome_iff_exists.mp hg
    simp only [update, hv, Option.elim]
    exact h.storeAlive hv
  | loadNow => exact h.loadNow
  | loadAlive =>
    obtain ⟨c, hc⟩ := Option.isSome_iff_exists.mp hg
    simp only [update, hc, Option.elim]
    exact h.loadAlive

theorem clockInv_of_reachable (h : (rtosWatchdogLts watchdogTimeout).Reachable s) : ClockInv s := by
  refine h.induct (P := ClockInv) ?_ ?_
  · rintro s ⟨clock, rfl⟩
    exact .created clock
  · intro l s _ hg _ hi
    exact hi.step hg

/-! ## When the alarm is justified -/

/-- More than the timeout has passed between the heartbeat that was the latest
one when the check began, and the check. -/
def Overdue (watchdogTimeout : UInt32) (c : RtosCheck) : Prop :=
  watchdogTimeout.toNat < c.began - c.heartbeat

/-- The heartbeat that the check is about to load is of a later clock value than
its `now`, and the one before it was in time. Without the last conjunct the
worker has stored it so late that the difference has wrapped all the way. -/
def Overtaken (watchdogTimeout : UInt32) (c : RtosCheck) (s : RtosWatchdog) : Prop :=
  0 < watchdogTimeout.toNat ∧ ¬ Overdue watchdogTimeout c ∧ c.began < s.heartbeat ∧
    0 < (s.heartbeat - c.began) % 2 ^ 32 ∧
      (s.heartbeat - c.began) % 2 ^ 32 + watchdogTimeout.toNat < 2 ^ 32

instance (t : UInt32) (c : RtosCheck) : Decidable (Overdue t c) :=
  inferInstanceAs (Decidable (_ < _))

instance (t : UInt32) (c : RtosCheck) (s : RtosWatchdog) : Decidable (Overtaken t c s) :=
  inferInstanceAs (Decidable (_ ∧ _))

/-- No check loads a heartbeat that overtook it. -/
def NotOvertaken (watchdogTimeout : UInt32) (l : RtosWatchLabel) (s : RtosWatchdog) : Prop :=
  match l with
  | .loadAlive => ∀ c ∈ s.check, ¬ Overtaken watchdogTimeout c s
  | _ => True

instance (t : UInt32) (l : RtosWatchLabel) (s : RtosWatchdog) :
    Decidable (NotOvertaken t l s) := by
  cases l <;> unfold NotOvertaken <;> infer_instance

/-- What the test finds in a check that is not overdue. -/
theorem expired_iff_overtaken (h : ClockInv s) (hc : s.check = some c)
    (hdue : ¬ Overdue watchdogTimeout c) :
    expired watchdogTimeout c.now s.lastAlive ↔ Overtaken watchdogTimeout c s := by
  have hlatest := (h.latest c hc).2
  rw [h.now c hc, h.lastAlive]
  rcases Nat.lt_or_ge c.began s.heartbeat with hlater | hle
  · rw [expired_of_lt hlater]
    unfold Overtaken
    tauto
  · -- the age of a heartbeat that is not older than the one at the beginning
    have hmod := Nat.mod_le (c.began - s.heartbeat) (2 ^ 32)
    rw [expired_of_le hle]
    unfold Overtaken
    unfold Overdue at hdue ⊢
    omega

/-- The alarm, where there is one, was justified. -/
def AlarmDue (watchdogTimeout : UInt32) (s : RtosWatchdog) : Prop :=
  ∀ c ∈ s.alarm, Overdue watchdogTimeout c

/-- Steps apart from the test leave the alarm alone. -/
theorem alarm_update (hl : l ≠ .loadAlive) : (update watchdogTimeout l s).alarm = s.alarm := by
  cases l with
  | loadAlive => exact absurd rfl hl
  | storeAlive =>
    simp only [update]
    cases s.pending <;> rfl
  | tick n => rfl
  | readClock => rfl
  | loadNow => rfl

theorem AlarmDue.step (hdue : AlarmDue watchdogTimeout s) (h : ClockInv s)
    (hg : guard l s) (hok : NotOvertaken watchdogTimeout l s) :
    AlarmDue watchdogTimeout (update watchdogTimeout l s) := by
  by_cases hl : l = .loadAlive
  · subst hl
    obtain ⟨c, hc⟩ := Option.isSome_iff_exists.mp hg
    have hover := hok c hc
    simp only [update, hc, Option.elim, RtosWatchdog.loadAlive]
    split
    · rename_i hexp
      -- a test that fires is overdue or overtaken
      have hod : Overdue watchdogTimeout c := by
        by_contra hod
        exact hover ((expired_iff_overtaken h hc hod).mp hexp)
      intro c' hc'
      cases hc'
      exact hod
    · exact hdue
  · unfold AlarmDue
    rw [alarm_update hl]
    exact hdue

/-- An alarm is never taken back, so a justified one shows that the check before
it was not overtaken. -/
theorem AlarmDue.before (h : ClockInv s) (hg : guard l s) (hnone : s.check.isSome → s.alarm = none)
    (hdue : AlarmDue watchdogTimeout (update watchdogTimeout l s)) :
    AlarmDue watchdogTimeout s ∧ NotOvertaken watchdogTimeout l s := by
  by_cases hl : l = .loadAlive
  · subst hl
    obtain ⟨c, hc⟩ := Option.isSome_iff_exists.mp hg
    have hal := hnone hg
    refine ⟨by simp [AlarmDue, hal], ?_⟩
    intro c' hc' hover
    have hcc : c = c' := Option.some.inj (hc.symm.trans hc')
    subst hcc
    have hexp := (expired_iff_overtaken h hc hover.2.1).mpr hover
    simp only [update, hc, Option.elim, RtosWatchdog.loadAlive, if_pos hexp] at hdue
    exact hover.2.1 (hdue c rfl)
  · unfold AlarmDue at hdue ⊢
    rw [alarm_update hl] at hdue
    refine ⟨hdue, ?_⟩
    cases l with
    | loadAlive => exact absurd rfl hl
    | _ => trivial

/-- No check runs after the handler was called. -/
theorem alarm_none_of_check (h : (rtosWatchdogLts watchdogTimeout).Reachable s) :
    s.check.isSome → s.alarm = none := by
  refine h.induct (P := fun s => s.check.isSome → s.alarm = none) ?_ ?_
  · rintro s ⟨clock, rfl⟩ hc
    rfl
  · intro l s _ hg _ ih hc
    cases l with
    | tick n => exact ih hc
    | readClock => exact ih hc
    | storeAlive =>
      obtain ⟨v, hv⟩ := Option.isSome_iff_exists.mp hg
      simp only [rtosWatchdogLts, update, hv, Option.elim] at hc ⊢
      exact ih hc
    | loadNow => exact hg.2
    | loadAlive =>
      obtain ⟨c, hck⟩ := Option.isSome_iff_exists.mp hg
      simp only [rtosWatchdogLts, update, hck, Option.elim, RtosWatchdog.loadAlive] at hc
      split at hc <;> cases hc

/-- `WatchdogHandler` is called only if more than the timeout has passed since the
heartbeat that was the latest one when the check began: this holds in exactly
the runs in which no check loads a heartbeat that overtook it. -/
theorem alarmDue_iff (h : (rtosWatchdogLts watchdogTimeout).Reachable s) :
    AlarmDue watchdogTimeout s ↔
      (rtosWatchdogLts watchdogTimeout).ReachableWhen (NotOvertaken watchdogTimeout) s := by
  constructor
  · refine h.induct (P := fun s => AlarmDue watchdogTimeout s →
      (rtosWatchdogLts watchdogTimeout).ReachableWhen (NotOvertaken watchdogTimeout) s) ?_ ?_
    · intro s hs _
      exact Lts.ReachableWhen.start hs
    · intro l s hr hg _ ih hdue
      obtain ⟨hbefore, hok⟩ :=
        AlarmDue.before (clockInv_of_reachable hr) hg (alarm_none_of_check hr) hdue
      exact (ih hbefore).next hg hok
  · intro hwhen
    refine hwhen.induct (P := AlarmDue watchdogTimeout) ?_ ?_
    · rintro s ⟨clock, rfl⟩ c hc
      cases hc
    · intro l s hr hg hok hdue
      exact hdue.step (clockInv_of_reachable hr.reachable) hg hok

/-- The heartbeat is older than the wrap of the clock, and the alarm is due. -/
theorem alarmDue_iff_run : ∃ s, (rtosWatchdogLts 1000).Reachable s ∧ s.alarm.isSome = true ∧
    (AlarmDue 1000 s ↔ (rtosWatchdogLts 1000).ReachableWhen (NotOvertaken 1000) s) := by
  obtain ⟨s, hs, hp⟩ := (rtosWatchdogLts 1000).execWhen_reachable Lts.always
    ⟨4294967000, rfl⟩
    [.tick 100, .readClock, .tick 5, .storeAlive, .tick 1001, .loadNow, .loadAlive]
    (fun s => s.alarm.isSome = true) (by decide +kernel)
  exact ⟨s, hs, of_decide_eq_true hp, alarmDue_iff hs⟩

/-- A tick and a heartbeat between the two loads, and `WatchdogHandler` is called
for a worker whose heartbeat is one millisecond old. -/
theorem not_alarmDue : ∃ s c, (rtosWatchdogLts 1000).Reachable s ∧ s.alarm = some c ∧
    ¬ Overdue 1000 c ∧ s.clock = c.heartbeat + 1 := by
  obtain ⟨s, hs, hp⟩ := (rtosWatchdogLts 1000).execWhen_reachable Lts.always
    ⟨5, rfl⟩ [.loadNow, .tick 1, .readClock, .storeAlive, .loadAlive]
    (fun s => s.alarm = some ⟨5, 5, 5⟩ ∧ s.clock = 6) (by decide +kernel)
  obtain ⟨ha, hclock⟩ := of_decide_eq_true hp
  exact ⟨s, ⟨5, 5, 5⟩, hs, ha, by decide, hclock⟩

end RtosWatchdog

end AsyncSqlite
