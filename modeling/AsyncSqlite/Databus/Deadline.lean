import AsyncSqlite.Timer.Periodic

/-!
# AsyncSqlite.Databus.Deadline — missed deadlines of a subscription

`DeadlineSubscription<T>` without a worker thread, on top of the timers. The silence
window is the deadline of a periodic timer of its own, which every delivery starts
again. `DeadlineSys` adds what a statement about time needs: when the subscription was
constructed and when it was delivered to, when each pass began, and in which passes
`onMissed` was called.

Deliveries do not overlap with passes, but passes may overlap with each other: the
callbacks run outside the lock. A pass that has found the deadline missed starts the
next window under the lock, and calls `onMissed` later. A second pass in between sees
the new window, although `onMissed` was not called yet (`deadline_foreseen`).
-/

namespace AsyncSqlite

structure DeadlineSubscription where
  deadline : ℤ
  /-- `m_timer` -/
  timer : ℕ
  /-- the delegate that `m_timerConn` connects -/
  onTimerExpired : ℕ

namespace DeadlineSubscription

variable (maxExpired : ℕ) (d : DeadlineSubscription)

/-- The constructor, up to `DataBus::Subscribe`. -/
def construct (now : ℤ) (s : Timers) : Timers :=
  let s := s.construct d.timer
  let s := Timers.update maxExpired (.connect d.timer d.onTimerExpired) s
  s.start d.timer d.deadline false now

/-- `OnDataReceived`, without `m_handler`. -/
def onDataReceived (now : ℤ) (s : Timers) : Timers := s.start d.timer d.deadline false now

/-- Nobody else has `m_timer`. -/
def Private : TimerLabel → Prop
  | .construct u | .destroy u | .stop u | .start u _ _ _ | .connect u _ | .disconnect u _ =>
    u = d.timer
  | _ => False

instance : ∀ L, Decidable (d.Private L)
  | .construct u | .destroy u | .stop u | .start u _ _ _ | .connect u _ | .disconnect u _ =>
    inferInstanceAs (Decidable (u = d.timer))
  | .processTimers _ | .advance _ => isFalse id

end DeadlineSubscription

structure DeadlineSys where
  timers : Timers
  /-- the last reading of the clock -/
  clock : ℤ
  /-- the times of the construction and of the deliveries -/
  resets : List ℤ
  passTime : ℕ → ℤ
  /-- the passes in which `onMissed` was called -/
  missed : List ℕ
  /-- when the pass began, the topic had been silent for a deadline, and `onMissed` too -/
  owed : ℕ → Bool
  /-- and a pass that was less than a deadline old had still to call `onMissed` -/
  underway : ℕ → Bool

inductive DeadlineLabel where
  | timers (L : TimerLabel)
  | deliver (now : ℤ)

namespace DeadlineSys

open Timers

variable {maxExpired : ℕ} {d : DeadlineSubscription} {p : DeadlineSys}

/-- No pass has calls left. -/
def Idle (s : Timers) : Prop := ∀ i < s.passes, s.snapshots i = []

instance (s : Timers) : Decidable (Idle s) :=
  inferInstanceAs (Decidable (∀ i < s.passes, s.snapshots i = []))

/-- The clock does not go back. The passes read it under the lock. -/
def InOrder (d : DeadlineSubscription) (p : DeadlineSys) : TimerLabel → Prop
  | .processTimers now => p.clock ≤ (now d.timer).expired ∧
      (now d.timer).expired ≤ (now d.timer).behind ∧ (now d.timer).behind ≤ (now d.timer).restart
  | _ => True

instance (d : DeadlineSubscription) (p : DeadlineSys) : ∀ L, Decidable (InOrder d p L)
  | .processTimers now => inferInstanceAs (Decidable (p.clock ≤ (now d.timer).expired ∧
      (now d.timer).expired ≤ (now d.timer).behind ∧
      (now d.timer).behind ≤ (now d.timer).restart))
  | .construct _ | .destroy _ | .stop _ | .start _ _ _ _ | .connect _ _ | .disconnect _ _
  | .advance _ => isTrue trivial

def guard (d : DeadlineSubscription) : DeadlineLabel → DeadlineSys → Prop
  | .timers L, p => Timers.guard L p.timers ∧ ¬ d.Private L ∧ InOrder d p L
  | .deliver now, p => p.timers.faulted = false ∧ Idle p.timers ∧ p.clock ≤ now

instance (d : DeadlineSubscription) : ∀ L p, Decidable (guard d L p)
  | .timers L, p =>
    inferInstanceAs (Decidable (Timers.guard L p.timers ∧ ¬ d.Private L ∧ InOrder d p L))
  | .deliver now, p =>
    inferInstanceAs (Decidable (p.timers.faulted = false ∧ Idle p.timers ∧ p.clock ≤ now))

/-- At least a deadline since the construction, the last delivery and the last `onMissed`. -/
def Silent (d : DeadlineSubscription) (p : DeadlineSys) (now : ℤ) : Prop :=
  ∀ x ∈ p.resets ++ p.missed.map p.passTime, x + d.deadline ≤ now

instance (d : DeadlineSubscription) (p : DeadlineSys) (now : ℤ) : Decidable (Silent d p now) :=
  inferInstanceAs (Decidable (∀ x ∈ p.resets ++ p.missed.map p.passTime, x + d.deadline ≤ now))

/-- The pass `i` will call `onMissed`. -/
def Holds (d : DeadlineSubscription) (p : DeadlineSys) (i : ℕ) : Prop :=
  (d.timer, d.onTimerExpired) ∈ pendingCalls (p.timers.snapshots i)

instance (d : DeadlineSubscription) (p : DeadlineSys) (i : ℕ) : Decidable (Holds d p i) :=
  inferInstanceAs (Decidable (_ ∈ pendingCalls (p.timers.snapshots i)))

/-- A pass that began less than a deadline ago will call `onMissed`. -/
def Underway (d : DeadlineSubscription) (p : DeadlineSys) (now : ℤ) : Prop :=
  ∃ i < p.timers.passes, Holds d p i ∧ now < p.passTime i + d.deadline

instance (d : DeadlineSubscription) (p : DeadlineSys) (now : ℤ) : Decidable (Underway d p now) :=
  inferInstanceAs (Decidable (∃ i < p.timers.passes, Holds d p i ∧ now < p.passTime i + d.deadline))

/-- Neither a delivery nor an expiry makes the deadline overflow. -/
def Representable (d : DeadlineSubscription) : DeadlineLabel → DeadlineSys → Prop
  | .deliver now, _ => TimePoint.InRange now d.deadline
  | .timers (.processTimers now), p => due now p.timers d.timer = true →
      TimePoint.InRange (p.timers.timer d.timer).expireTime (p.timers.timer d.timer).timeout
  | .timers _, _ => True

instance (d : DeadlineSubscription) : ∀ L p, Decidable (Representable d L p)
  | .deliver now, _ => inferInstanceAs (Decidable (TimePoint.InRange now d.deadline))
  | .timers (.processTimers now), p =>
    inferInstanceAs (Decidable (due now p.timers d.timer = true →
      TimePoint.InRange (p.timers.timer d.timer).expireTime (p.timers.timer d.timer).timeout))
  | .timers (.construct _), _ | .timers (.destroy _), _ | .timers (.start _ _ _ _), _
  | .timers (.stop _), _ | .timers (.connect _ _), _ | .timers (.disconnect _ _), _
  | .timers (.advance _), _ => isTrue trivial

/-- The step of the timers, and what it adds to the record. -/
def updateTimers (maxExpired : ℕ) (d : DeadlineSubscription) (L : TimerLabel) (p : DeadlineSys) :
    DeadlineSys :=
  let s := Timers.update maxExpired L p.timers
  match L with
  | .processTimers now =>
    { p with
      timers := s
      clock := (now d.timer).restart
      passTime := Function.update p.passTime p.timers.passes (now d.timer).expired
      owed := Function.update p.owed p.timers.passes
        (decide (Silent d p (now d.timer).expired))
      underway := Function.update p.underway p.timers.passes
        (decide (Underway d p (now d.timer).expired)) }
  | .advance i =>
    { p with
      timers := s
      missed := if p.timers.nextCallback i = some (d.timer, d.onTimerExpired) then i :: p.missed
        else p.missed }
  | _ => { p with timers := s }

def update (maxExpired : ℕ) (d : DeadlineSubscription) : DeadlineLabel → DeadlineSys → DeadlineSys
  | .timers L, p => updateTimers maxExpired d L p
  | .deliver now, p =>
    { p with timers := d.onDataReceived now p.timers, clock := now, resets := now :: p.resets }

/-- The constructor has returned; its delegate is a new one. -/
def Constructed (maxExpired : ℕ) (d : DeadlineSubscription) (s₀ : ℤ) (p : DeadlineSys) : Prop :=
  ∃ r, (timerLts maxExpired).Reachable r ∧ r.faulted = false ∧ d.timer ∉ r.objects ∧
    (∀ i, (d.timer, d.onTimerExpired) ∉ pendingCalls (r.snapshots i)) ∧
    p = ⟨d.construct maxExpired s₀ r, s₀, [s₀], fun _ => 0, [], fun _ => false, fun _ => false⟩

end DeadlineSys

/-- The subscription is constructed at the time `s₀`. -/
def deadlineLts (maxExpired : ℕ) (d : DeadlineSubscription) (s₀ : ℤ) :
    Lts DeadlineSys DeadlineLabel where
  init := DeadlineSys.Constructed maxExpired d s₀
  guard := DeadlineSys.guard d
  update := DeadlineSys.update maxExpired d

namespace DeadlineSys

open Timers

variable {maxExpired : ℕ} {d : DeadlineSubscription} {s₀ : ℤ} {p : DeadlineSys}

instance (L : DeadlineLabel) (p : DeadlineSys) :
    Decidable ((deadlineLts maxExpired d s₀).guard L p) :=
  inferInstanceAs (Decidable (guard d L p))

/-! ## The invariant -/

/-- The deadline of the timer is a whole one after every reset, and at the latest a
whole one after the last reset or call, or in the past. -/
structure Window (d : DeadlineSubscription) (p : DeadlineSys) (e : ℤ) : Prop where
  timer : p.timers.timer d.timer = ⟨d.deadline, e, true, false⟩
  reset : ∀ x ∈ p.resets, x + d.deadline ≤ e
  latest : ∀ τ, p.clock ≤ τ → (∀ x ∈ p.resets, x + d.deadline ≤ τ) →
    (∀ i, i ∈ p.missed ∨ Holds d p i → p.passTime i + d.deadline ≤ τ) → e ≤ τ

/-- What holds as long as no pass has ended the program. -/
structure DeadlineInv (maxExpired : ℕ) (d : DeadlineSubscription) (p : DeadlineSys) : Prop where
  reachable : (timerLts maxExpired).Reachable p.timers
  object : d.timer ∈ p.timers.objects
  subscriber : p.timers.onExpired d.timer = [d.onTimerExpired]
  past : ∀ x ∈ p.resets, x ≤ p.clock
  began : ∀ i ∈ p.missed, i < p.timers.passes
  window : ∃ e, Window d p e
  silent : ∀ i, Holds d p i → ∀ x ∈ p.resets, x + d.deadline ≤ p.passTime i
  owed : ∀ i, p.owed i = true → p.underway i = false → i ∈ p.missed ∨ Holds d p i

/-- Only a pass that has begun holds a call. -/
theorem DeadlineInv.lt_of_holds (h : DeadlineInv maxExpired d p) {i : ℕ} (hi : Holds d p i) :
    i < p.timers.passes := by
  by_contra hge
  have hnil := fresh_of_reachable h.reachable i (Nat.le_of_not_lt hge)
  unfold Holds at hi
  rw [hnil] at hi
  exact absurd hi List.not_mem_nil

theorem DeadlineInv.not_holds (h : DeadlineInv maxExpired d p) (hidle : Idle p.timers) (i : ℕ) :
    ¬ Holds d p i := by
  intro hi
  have hnil := hidle i (h.lt_of_holds hi)
  unfold Holds at hi
  rw [hnil] at hi
  exact absurd hi List.not_mem_nil

theorem DeadlineInv.construct (hD : 0 < d.deadline) (hs₀ : TimePoint.InRange s₀ d.deadline)
    (h : Constructed maxExpired d s₀ p) : DeadlineInv maxExpired d p := by
  rcases h with ⟨r, hr, hf, hnew, hfresh, rfl⟩
  have hframe := start_frame hD s₀ (Timers.update maxExpired
    (.connect d.timer d.onTimerExpired) (r.construct d.timer)) d.timer false
  have hg₁ : (timerLts maxExpired).guard (.construct d.timer) r := ⟨hf, hnew⟩
  have hg₂ : (timerLts maxExpired).guard (.connect d.timer d.onTimerExpired)
      (r.construct d.timer) := ⟨hf, List.mem_cons_self⟩
  have hg₃ : (timerLts maxExpired).guard (.start d.timer d.deadline false s₀)
      (Timers.update maxExpired (.connect d.timer d.onTimerExpired) (r.construct d.timer)) :=
    ⟨hf, List.mem_cons_self⟩
  -- no pass has taken a snapshot of the new timer
  have hnone : ∀ i, ¬ Holds d ⟨d.construct maxExpired s₀ r, s₀, [s₀], fun _ => 0, [],
      fun _ => false, fun _ => false⟩ i := by
    intro i hi
    unfold Holds DeadlineSubscription.construct at hi
    dsimp only at hi
    rw [hframe.snapshots] at hi
    exact hfresh i hi
  constructor
  · exact ((hr.next hg₁ trivial).next hg₂ trivial).next hg₃ trivial
  · show d.timer ∈ (d.construct maxExpired s₀ r).objects
    unfold DeadlineSubscription.construct
    dsimp only
    rw [hframe.objects]
    exact List.mem_cons_self
  · show (d.construct maxExpired s₀ r).onExpired d.timer = _
    unfold DeadlineSubscription.construct
    dsimp only
    rw [hframe.onExpired]
    simp [Timers.update, Timers.construct]
  · simp
  · simp
  · refine ⟨s₀ + d.deadline, ?_, by simp, ?_⟩
    · show (d.construct maxExpired s₀ r).timer d.timer = _
      unfold DeadlineSubscription.construct
      dsimp only
      rw [hframe.timer, Function.update_self, TimePoint.add_eq hs₀]
    · intro τ _ hreset _
      exact hreset s₀ List.mem_cons_self
  · intro i hi
    exact absurd hi (hnone i)
  · intro i hi
    cases hi

/-- A delivery starts the window again. No pass is in progress, so none has decided
otherwise. -/
theorem DeadlineInv.deliver (hD : 0 < d.deadline) (h : DeadlineInv maxExpired d p) {now : ℤ}
    (hg : guard d (.deliver now) p) (hrange : TimePoint.InRange now d.deadline) :
    DeadlineInv maxExpired d (update maxExpired d (.deliver now) p) := by
  rcases hg with ⟨hf, hidle, hle⟩
  have hframe := start_frame hD now p.timers d.timer false
  have hgs : (timerLts maxExpired).guard (.start d.timer d.deadline false now) p.timers :=
    ⟨hf, h.object⟩
  have hnone : ∀ i, ¬ Holds d (update maxExpired d (.deliver now) p) i := by
    intro i hi
    apply h.not_holds hidle i
    unfold Holds update DeadlineSubscription.onDataReceived at hi
    dsimp only at hi
    rwa [hframe.snapshots] at hi
  have hpast : ∀ x ∈ now :: p.resets, x ≤ now := by
    intro x hx
    rcases List.mem_cons.mp hx with rfl | hx
    · exact Int.le_refl x
    · exact Int.le_trans (h.past x hx) hle
  constructor
  · exact h.reachable.next hgs trivial
  · show d.timer ∈ (p.timers.start d.timer d.deadline false now).objects
    rw [hframe.objects]
    exact h.object
  · show (p.timers.start d.timer d.deadline false now).onExpired d.timer = _
    rw [hframe.onExpired]
    exact h.subscriber
  · exact hpast
  · intro i hi
    show i < (p.timers.start d.timer d.deadline false now).passes
    rw [hframe.passes]
    exact h.began i hi
  · refine ⟨now + d.deadline, ?_, ?_, ?_⟩
    · show (p.timers.start d.timer d.deadline false now).timer d.timer = _
      rw [hframe.timer, Function.update_self, TimePoint.add_eq hrange]
    · intro x hx
      have hxle := hpast x hx
      omega
    · intro τ _ hreset _
      exact hreset now List.mem_cons_self
  · intro i hi
    exact absurd hi (hnone i)
  · intro i hi hother
    rcases h.owed i hi hother with hmissed | hholds
    · exact Or.inl hmissed
    · exact absurd hholds (h.not_holds hidle i)

/-- A step that leaves the timer and the passes alone. -/
theorem DeadlineInv.aside (h : DeadlineInv maxExpired d p) {s : Timers}
    (hr : (timerLts maxExpired).Reachable s) (hobj : d.timer ∈ s.objects)
    (htimer : s.timer d.timer = p.timers.timer d.timer)
    (hon : s.onExpired d.timer = p.timers.onExpired d.timer)
    (hsnaps : s.snapshots = p.timers.snapshots) (hpasses : s.passes = p.timers.passes) :
    DeadlineInv maxExpired d { p with timers := s } := by
  have hholds : ∀ i, Holds d { p with timers := s } i ↔ Holds d p i := by
    intro i
    unfold Holds
    rw [hsnaps]
  constructor
  · exact hr
  · exact hobj
  · exact hon.trans h.subscriber
  · exact h.past
  · intro i hi
    rw [hpasses]
    exact h.began i hi
  · -- the same passes have calls left, so the same times are settled
    rcases h.window with ⟨e, hw⟩
    refine ⟨e, htimer.trans hw.timer, hw.reset, ?_⟩
    intro τ hle hreset hcall
    apply hw.latest τ hle hreset
    intro i hi
    rw [← hholds] at hi
    exact hcall i hi
  · intro i hi
    exact h.silent i ((hholds i).mp hi)
  · intro i hi hother
    rw [hholds]
    exact h.owed i hi hother

theorem missed_advance (i j : ℕ) :
    j ∈ (update maxExpired d (.timers (.advance i)) p).missed ↔
      j ∈ p.missed ∨
        p.timers.nextCallback i = some (d.timer, d.onTimerExpired) ∧ j = i := by
  have hmissed : (update maxExpired d (.timers (.advance i)) p).missed =
      if p.timers.nextCallback i = some (d.timer, d.onTimerExpired) then i :: p.missed
      else p.missed := rfl
  rw [hmissed]
  split
  case isTrue hcall => rw [List.mem_cons, or_comm, and_iff_right hcall]
  case isFalse hcall => simp only [hcall, false_and, or_false]

/-- A step of a pass takes no call away but the one that it makes. -/
theorem holds_advance (i j : ℕ) :
    (Holds d (update maxExpired d (.timers (.advance i)) p) j → Holds d p j) ∧
    (j ∈ p.missed ∨ Holds d p j →
      j ∈ (update maxExpired d (.timers (.advance i)) p).missed ∨
        Holds d (update maxExpired d (.timers (.advance i)) p) j) := by
  have hcalls := pendingCalls_advance i p.timers
  by_cases hji : j = i
  · subst hji
    constructor
    · intro hholds
      unfold Holds
      rw [hcalls]
      exact List.mem_append_right _ hholds
    · rintro (hin | hholds)
      · exact Or.inl ((missed_advance j j).mpr (Or.inl hin))
      · -- the call is the one of this step, or is left for a later one
        unfold Holds at hholds
        rw [hcalls] at hholds
        rcases List.mem_append.mp hholds with hnow | hlater
        · have hcall := Option.mem_toList.mp hnow
          exact Or.inl ((missed_advance j j).mpr (Or.inr ⟨hcall, rfl⟩))
        · exact Or.inr hlater
  · have hsame : Holds d (update maxExpired d (.timers (.advance i)) p) j ↔ Holds d p j := by
      unfold Holds
      have hsnaps : (p.timers.advance i).snapshots j = p.timers.snapshots j :=
        Function.update_of_ne hji _ _
      show _ ∈ pendingCalls ((p.timers.advance i).snapshots j) ↔ _
      rw [hsnaps]
    rw [hsame]
    refine ⟨id, ?_⟩
    rintro (hin | hholds)
    · exact Or.inl ((missed_advance i j).mpr (Or.inl hin))
    · exact Or.inr hholds

theorem DeadlineInv.advance (h : DeadlineInv maxExpired d p) {i : ℕ}
    (hg : guard d (.timers (.advance i)) p) :
    DeadlineInv maxExpired d (update maxExpired d (.timers (.advance i)) p) := by
  have hgt : (timerLts maxExpired).guard (.advance i) p.timers := hg.1
  constructor
  · exact h.reachable.next hgt trivial
  · exact h.object
  · exact h.subscriber
  · exact h.past
  · intro j hj
    rcases (missed_advance i j).mp hj with hj | ⟨-, rfl⟩
    · exact h.began j hj
    · exact hgt.2.1
  · rcases h.window with ⟨e, hw⟩
    refine ⟨e, hw.timer, hw.reset, ?_⟩
    intro τ hle hreset hcall
    apply hw.latest τ hle hreset
    intro j hj
    exact hcall j ((holds_advance i j).2 hj)
  · intro j hj
    exact h.silent j ((holds_advance i j).1 hj)
  · intro j hj hother
    exact (holds_advance i j).2 (h.owed j hj hother)

/-- A pass that returns holds the call exactly if the timer is due. -/
theorem holds_collected {l : List ℕ} {now : ℕ → Readings} (h : DeadlineInv maxExpired d p)
    (hlist : ListInv l p.timers) :
    (d.timer, d.onTimerExpired) ∈ pendingCalls (collected now p.timers l) ↔
      Timers.due now p.timers d.timer = true := by
  unfold pendingCalls collected
  rw [List.mem_flatMap]
  constructor
  · rintro ⟨x, hx, hcall⟩
    rcases List.mem_map.mp hx with ⟨u, hu, rfl⟩
    rcases List.mem_map.mp hcall with ⟨k, -, heq⟩
    have hut : u = d.timer := congrArg Prod.fst heq
    rw [← hut]
    exact (List.mem_filter.mp hu).2
  · intro hdue
    have hen : (p.timers.timer d.timer).enabled = true := (Bool.and_eq_true_iff.mp hdue).1
    have hmem := List.mem_filter.mpr ⟨hlist.enabled _ h.object hen, hdue⟩
    refine ⟨_, List.mem_map.mpr ⟨d.timer, hmem, rfl⟩, ?_⟩
    rw [h.subscriber]
    exact List.mem_cons_self

/-- A deadline that is due moves on by a whole one, or to the last reading. -/
theorem expire_window {D e : ℤ} {now : Readings} (hD : 0 < D) (hrange : TimePoint.InRange e D)
    (hexp : e ≤ now.expired) (hrestart : now.behind ≤ now.restart) :
    ∃ e', Timer.expire now ⟨D, e, true, false⟩ = ⟨D, e', true, false⟩ ∧ e ≤ e' ∧
      ∀ τ, now.restart ≤ τ → now.expired + D ≤ τ → e' ≤ τ := by
  unfold Timer.expire
  simp only [Bool.false_eq_true, if_false, gt_iff_lt, TimePoint.add_eq hrange]
  split
  · refine ⟨now.restart, rfl, by omega, ?_⟩
    intro τ hle _
    exact hle
  · refine ⟨e + D, rfl, by omega, ?_⟩
    intro τ _ hle
    omega

/-- A pass that does not end the program holds the call if the timer is due; the other
passes hold what they held. -/
theorem holds_pass (h : DeadlineInv maxExpired d p) {l : List ℕ} {now : ℕ → Readings}
    (hlist : ListInv l p.timers)
    (hpass : Passed now l p.timers (p.timers.processTimers maxExpired now)) (i : ℕ) :
    Holds d (update maxExpired d (.timers (.processTimers now)) p) i ↔
      i = p.timers.passes ∧ Timers.due now p.timers d.timer = true ∨ Holds d p i := by
  show _ ∈ pendingCalls ((p.timers.processTimers maxExpired now).snapshots i) ↔ _
  rw [hpass.snapshots]
  by_cases hi : i = p.timers.passes
  · subst hi
    have hnone : ¬ Holds d p p.timers.passes := fun hheld =>
      Nat.lt_irrefl _ (h.lt_of_holds hheld)
    rw [Function.update_self, holds_collected h hlist]
    simp [hnone]
  · rw [Function.update_of_ne hi]
    simp [hi, Holds]

/-- A pass that does not end the program. -/
theorem DeadlineInv.pass (hD : 0 < d.deadline) (h : DeadlineInv maxExpired d p)
    {now : ℕ → Readings} (hg : guard d (.timers (.processTimers now)) p)
    (hok : Representable d (.timers (.processTimers now)) p)
    (hno : (p.timers.processTimers maxExpired now).faulted = false) :
    DeadlineInv maxExpired d (update maxExpired d (.timers (.processTimers now)) p) := by
  rcases hg with ⟨hf, -, hclock, hbehind, hrestart⟩
  rcases list_of_reachable h.reachable with ⟨l, hlist⟩
  have hfits : Fits maxExpired (Timers.due now p.timers) 0 (visited p.timers l) := by
    by_contra hnot
    rw [(hlist.pass maxExpired now).2 hnot] at hno
    cases hno
  have hpass := (hlist.pass maxExpired now).1 hfits
  have hholds := holds_pass h hlist hpass
  have htime : ∀ i, i ∈ p.missed ∨ Holds d p i →
      (update maxExpired d (.timers (.processTimers now)) p).passTime i = p.passTime i := by
    intro i hi
    have hlt : i < p.timers.passes := hi.elim (h.began i) h.lt_of_holds
    exact Function.update_of_ne (by omega) _ _
  have hthis : (update maxExpired d (.timers (.processTimers now)) p).passTime p.timers.passes =
      (now d.timer).expired := Function.update_self _ _ _
  rcases h.window with ⟨e, hw⟩
  have hdue : Timers.due now p.timers d.timer = decide (e ≤ (now d.timer).expired) := by
    rw [Timers.due, hw.timer]
    rfl
  have hnew := hpass.timer d.timer h.object
  rw [hw.timer, hdue] at hnew
  rw [hdue] at hholds
  constructor
  · exact reachable_pass h.reachable hf now
  · show d.timer ∈ (p.timers.processTimers maxExpired now).objects
    rw [hpass.objects]
    exact h.object
  · show (p.timers.processTimers maxExpired now).onExpired d.timer = _
    rw [hpass.onExpired]
    exact h.subscriber
  · intro x hx
    have hxle := h.past x hx
    show x ≤ (now d.timer).restart
    omega
  · intro i hi
    have hlt := h.began i hi
    show i < (p.timers.processTimers maxExpired now).passes
    rw [hpass.passes]
    omega
  · by_cases hnow : e ≤ (now d.timer).expired
    · have hrange : TimePoint.InRange e d.deadline := by
        have hnext := hok (hdue.trans (decide_eq_true hnow))
        rwa [hw.timer] at hnext
      rcases expire_window hD hrange hnow hrestart with ⟨e', hexpire, hle, hlatest⟩
      rw [if_pos (decide_eq_true hnow), hexpire] at hnew
      refine ⟨e', hnew, ?_, ?_⟩
      · intro x hx
        exact Int.le_trans (hw.reset x hx) hle
      · intro τ hτ _ hcall
        apply hlatest τ hτ
        have hlast := hcall p.timers.passes
          (Or.inr ((hholds _).mpr (Or.inl ⟨rfl, decide_eq_true hnow⟩)))
        rwa [hthis] at hlast
    · rw [decide_eq_false hnow, if_neg Bool.false_ne_true] at hnew
      refine ⟨e, hnew, hw.reset, ?_⟩
      intro τ hτ hreset hcall
      apply hw.latest τ _ hreset
      · intro i hi
        have hlast := hcall i (hi.imp id fun hheld => (hholds i).mpr (Or.inr hheld))
        rwa [htime i hi] at hlast
      · change (now d.timer).restart ≤ τ at hτ
        omega
  · intro i hi x hx
    rcases (hholds i).mp hi with ⟨rfl, hnow⟩ | hheld
    · rw [hthis]
      exact Int.le_trans (hw.reset x hx) (of_decide_eq_true hnow)
    · rw [htime i (Or.inr hheld)]
      exact h.silent i hheld x hx
  · intro i hi hother
    by_cases hnew : i = p.timers.passes
    · -- the window ends at the latest where the silence, also of the other passes, does
      subst hnew
      change Function.update p.owed p.timers.passes
        (decide (Silent d p (now d.timer).expired)) p.timers.passes = true at hi
      change Function.update p.underway p.timers.passes
        (decide (Underway d p (now d.timer).expired)) p.timers.passes = false at hother
      rw [Function.update_self] at hi hother
      have hsilent := of_decide_eq_true hi
      have hnone := of_decide_eq_false hother
      right
      rw [hholds]
      refine Or.inl ⟨rfl, decide_eq_true (hw.latest _ hclock ?_ ?_)⟩
      · intro x hx
        exact hsilent x (List.mem_append_left _ hx)
      · rintro j (hmem | hheld)
        · exact hsilent _ (List.mem_append_right _ (List.mem_map_of_mem hmem))
        · by_contra hlate
          exact hnone ⟨j, h.lt_of_holds hheld, hheld, by omega⟩
    · change Function.update p.owed p.timers.passes _ i = true at hi
      change Function.update p.underway p.timers.passes _ i = false at hother
      rw [Function.update_of_ne hnew] at hi hother
      exact (h.owed i hi hother).imp id fun hheld => (hholds i).mpr (Or.inr hheld)

/-- The subscribers of a timer change by its own operations only. -/
theorem onExpired_untouched (maxExpired : ℕ) {L : TimerLabel} {s : Timers} (hL : ¬ d.Private L)
    (hpass : ∀ now, L ≠ .processTimers now) :
    (Timers.update maxExpired L s).onExpired d.timer = s.onExpired d.timer := by
  cases L with
  | construct u | connect u k | disconnect u k =>
    have hne : d.timer ≠ u := fun h => hL h.symm
    exact Function.update_of_ne hne _ _
  | destroy u =>
    have hne : d.timer ≠ u := fun h => hL h.symm
    exact Function.update_of_ne hne _ _
  | start u timeout once now =>
    simp only [Timers.update, start]
    split
    · rfl
    · split
      all_goals rfl
  | stop u | advance u => rfl
  | processTimers now => exact absurd rfl (hpass now)

theorem DeadlineInv.other (h : DeadlineInv maxExpired d p) {L : TimerLabel}
    (hg : guard d (.timers L) p) (hpass : ∀ now, L ≠ .processTimers now)
    (hadvance : ∀ i, L ≠ .advance i) :
    DeadlineInv maxExpired d (update maxExpired d (.timers L) p) := by
  have hop : ¬ Operates d.timer L := by
    intro hop
    apply hg.2.1
    cases L with
    | connect u k | disconnect u k => exact hop.elim
    | _ => exact hop
  have hgt : (timerLts maxExpired).guard L p.timers := hg.1
  have ⟨htimer, hobj, _⟩ := timer_untouched maxExpired h.object hop hpass
  have ⟨hsnaps, hpasses, _⟩ := operation_frame (t := 0) maxExpired hg.1 hpass hadvance
  have heq : update maxExpired d (.timers L) p =
      { p with timers := Timers.update maxExpired L p.timers } := by
    cases L with
    | processTimers now => exact absurd rfl (hpass now)
    | advance i => exact absurd rfl (hadvance i)
    | _ => rfl
  rw [heq]
  exact h.aside (h.reachable.next hgt trivial) hobj htimer
    (onExpired_untouched maxExpired hg.2.1 hpass) hsnaps hpasses

/-- A state from which a step can be taken is one that no pass has ended. -/
theorem not_faulted_of_guard {L : DeadlineLabel} (hg : guard d L p) : p.timers.faulted = false := by
  cases L with
  | deliver now => exact hg.1
  | timers L =>
    have hgt := hg.1
    cases L with
    | processTimers now => exact hgt
    | _ => exact hgt.1

theorem deadline_of_reachable (hD : 0 < d.deadline) (hs₀ : TimePoint.InRange s₀ d.deadline)
    (hr : (deadlineLts maxExpired d s₀).ReachableWhen (Representable d) p) :
    p.timers.faulted = false → DeadlineInv maxExpired d p := by
  refine hr.induct (P := fun p => p.timers.faulted = false → DeadlineInv maxExpired d p) ?_ ?_
  · intro p hp _
    exact DeadlineInv.construct hD hs₀ hp
  · intro L p _ hg hok ih hno
    have h := ih (not_faulted_of_guard hg)
    cases L with
    | deliver now => exact h.deliver hD hg hok
    | timers L =>
      by_cases hpass : ∃ now, L = .processTimers now
      · rcases hpass with ⟨now, rfl⟩
        exact h.pass hD hg hok hno
      by_cases hadvance : ∃ i, L = .advance i
      · rcases hadvance with ⟨i, rfl⟩
        exact h.advance hg
      · exact h.other hg (fun now he => hpass ⟨now, he⟩) (fun i he => hadvance ⟨i, he⟩)

/-- A pass calls `onMissed` only if no delivery, and not the construction, was later than
a deadline before the time of the pass; and a pass that comes a whole deadline after the
last of construction, delivery and `onMissed`, also of an `onMissed` that another pass
has still to call, has called it when it is through. This holds in every run in which
the deadline of the timer does not overflow, and whatever passes overlap. -/
theorem deadline_exact (hD : 0 < d.deadline) (hs₀ : TimePoint.InRange s₀ d.deadline)
    (hr : (deadlineLts maxExpired d s₀).ReachableWhen (Representable d) p)
    (hf : p.timers.faulted = false) :
    (∀ i, p.timers.nextCallback i = some (d.timer, d.onTimerExpired) →
      ∀ x ∈ p.resets, x ≤ p.passTime i - d.deadline) ∧
    (∀ i, p.owed i = true → p.underway i = false → p.timers.snapshots i = [] →
      i ∈ p.missed) := by
  have h := deadline_of_reachable hD hs₀ hr hf
  constructor
  · intro i hcall x hx
    have hholds : Holds d p i := by
      unfold Holds
      rw [pendingCalls_advance i p.timers, hcall]
      exact List.mem_cons_self
    have hle := h.silent i hholds x hx
    omega
  · intro i howed hother hend
    refine (h.owed i howed hother).resolve_right fun hholds => ?_
    unfold Holds at hholds
    rw [hend] at hholds
    exact absurd hholds List.not_mem_nil

/-- A subscription on timers that nobody else uses. -/
theorem constructed_initial (maxExpired : ℕ) (d : DeadlineSubscription) (s₀ : ℤ) :
    (deadlineLts maxExpired d s₀).init
      ⟨d.construct maxExpired s₀ Timers.initial, s₀, [s₀], fun _ => 0, [], fun _ => false,
        fun _ => false⟩ :=
  ⟨Timers.initial, Lts.ReachableWhen.start rfl, rfl, List.not_mem_nil,
    fun _ => List.not_mem_nil, rfl⟩

/-- A delivery in time, and then a pass that comes too late, with another one beside it. -/
theorem deadline_exact_run :
    ∃ p, (deadlineLts 16 ⟨10, 0, 7⟩ 0).ReachableWhen (Representable ⟨10, 0, 7⟩) p ∧
      p.resets = [8, 0] ∧ 1 ∈ p.missed ∧ p.passTime 1 = 30 := by
  obtain ⟨p, hr, hp⟩ := (deadlineLts 16 ⟨10, 0, 7⟩ 0).execWhen_reachable
    (Representable ⟨10, 0, 7⟩) (constructed_initial 16 ⟨10, 0, 7⟩ 0)
    [.deliver 8, .timers (.processTimers fun _ => ⟨11, 11, 11⟩),
      .timers (.processTimers fun _ => ⟨30, 30, 30⟩),
      .timers (.processTimers fun _ => ⟨31, 31, 31⟩), .timers (.advance 1), .timers (.advance 1)]
    (fun p => p.timers.faulted = false ∧ p.resets = [8, 0] ∧ p.owed 1 = true ∧
      p.underway 1 = false ∧ p.timers.snapshots 1 = [] ∧ p.passTime 1 = 30) (by decide +kernel)
  obtain ⟨hf, hresets, howed, hother, hend, htime⟩ : _ ∧ _ ∧ _ ∧ _ ∧ _ ∧ _ :=
    of_decide_eq_true hp
  exact ⟨p, hr, hresets, (deadline_exact (by decide) (by decide) hr hf).2 1 howed hother hend,
    htime⟩

/-- The pass at 12 begins behind the one at 11, which has found the deadline missed and
not called `onMissed` yet, and does not call it. -/
theorem deadline_foreseen :
    ∃ p, (deadlineLts 16 ⟨10, 0, 7⟩ 0).Reachable p ∧ p.resets = [0] ∧ p.passTime 1 = 12 ∧
      p.owed 1 = true ∧ p.timers.snapshots 1 = [] ∧ p.missed = [0] := by
  obtain ⟨p, hr, hp⟩ := (deadlineLts 16 ⟨10, 0, 7⟩ 0).execWhen_reachable Lts.always
    (constructed_initial 16 ⟨10, 0, 7⟩ 0)
    [.timers (.processTimers fun _ => ⟨11, 11, 11⟩),
      .timers (.processTimers fun _ => ⟨12, 12, 12⟩), .timers (.advance 0), .timers (.advance 0)]
    (fun p => p.resets = [0] ∧ p.passTime 1 = 12 ∧ p.owed 1 = true ∧
      p.timers.snapshots 1 = [] ∧ p.missed = [0]) (by decide +kernel)
  exact ⟨p, hr, of_decide_eq_true hp⟩

end DeadlineSys

end AsyncSqlite
