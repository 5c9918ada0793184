import Mathlib.Tactic.Linarith
import AsyncSqlite.Timer.Expired

/-!
# AsyncSqlite.Timer.Periodic — periodic timers neither fire early nor drift

One timer `t`, started at `s₀` with the period `P`, among any others. `PeriodicSys`
counts the passes in which it expires. Its deadline is never before the next multiple
of the period (`PeriodicInv`): an expiry moves it by one period, and the catch-up
branch only to a time that is later still. As long as no two passes are more than a
period apart the catch-up branch is not taken, and the deadline is that multiple.

All of this holds as long as no deadline overflows (`Representable`). `Start` takes
every positive timeout, also `Duration::max()`, with which the sum is in the past.
-/

namespace AsyncSqlite

namespace Timers

/-- The label is an operation on the object `t`. -/
def Operates (t : ℕ) : TimerLabel → Prop
  | .construct u | .destroy u | .stop u | .start u _ _ _ => u = t
  | _ => False

instance (t : ℕ) : ∀ L, Decidable (Operates t L)
  | .construct u | .destroy u | .stop u | .start u _ _ _ => inferInstanceAs (Decidable (u = t))
  | .connect _ _ | .disconnect _ _ | .processTimers _ | .advance _ => isFalse id

variable {s : Timers} {t : ℕ} {maxExpired : ℕ}

/-- What `Start` changes besides the list. -/
structure StartFrame (t : ℕ) (x : Timer) (s s' : Timers) : Prop where
  timer : s'.timer = Function.update s.timer t x
  onExpired : s'.onExpired = s.onExpired
  objects : s'.objects = s.objects
  snapshots : s'.snapshots = s.snapshots
  passes : s'.passes = s.passes
  faulted : s'.faulted = s.faulted

theorem start_frame {P : ℤ} (hP : 0 < P) (now : ℤ) (s : Timers) (t : ℕ) (once : Bool) :
    StartFrame t ⟨P, TimePoint.add now P, true, once⟩ s (s.start t P once now) := by
  unfold start
  rw [if_neg (by omega)]
  dsimp only
  split
  all_goals exact ⟨rfl, rfl, rfl, rfl, rfl, rfl⟩

/-- Between the passes a timer is changed by its own operations only. -/
theorem timer_untouched (maxExpired : ℕ) {L : TimerLabel} (ht : t ∈ s.objects)
    (hL : ¬ Operates t L) (hpass : ∀ now, L ≠ .processTimers now) :
    (update maxExpired L s).timer t = s.timer t ∧ t ∈ (update maxExpired L s).objects ∧
      (update maxExpired L s).faulted = s.faulted := by
  cases L with
  | construct u =>
    have htu : t ≠ u := fun h => hL h.symm
    refine ⟨Function.update_of_ne htu _ _, List.mem_cons_of_mem u ht, rfl⟩
  | destroy u =>
    have htu : t ≠ u := fun h => hL h.symm
    simp only [update, destroy, withLinks]
    split
    all_goals exact ⟨rfl, (List.mem_erase_of_ne htu).mpr ht, rfl⟩
  | start u timeout once now =>
    have htu : t ≠ u := fun h => hL h.symm
    simp only [update, start]
    split
    · exact ⟨rfl, ht, rfl⟩
    · split
      all_goals
        refine ⟨?_, ht, rfl⟩
        exact Function.update_of_ne htu _ _
  | stop u =>
    have htu : t ≠ u := fun h => hL h.symm
    exact ⟨Function.update_of_ne htu _ _, ht, rfl⟩
  | connect u d => exact ⟨rfl, ht, rfl⟩
  | disconnect u d => exact ⟨rfl, ht, rfl⟩
  | processTimers now => exact absurd rfl (hpass now)
  | advance i => exact ⟨rfl, ht, rfl⟩

/-- How often the pass `i` fires the timer. A pass that ends the program fires none. -/
def fired (t i : ℕ) (s : Timers) : ℕ :=
  if s.faulted then 0 else (s.snapshots i).countP fun x => x.timer = t

end Timers

structure PeriodicSys where
  timers : Timers
  firings : ℕ
  /-- of the last pass, or of `Start` -/
  instant : ℤ
  /-- no pass was more than a period after the one before it -/
  steady : Bool

namespace PeriodicSys

open Timers

/-- The clock does not go back from pass to pass, and stands still in a check. -/
def InTime (t : ℕ) (p : PeriodicSys) : TimerLabel → Prop
  | .processTimers now => p.instant ≤ (now t).expired ∧ (now t).behind = (now t).expired ∧
      (now t).restart = (now t).expired
  | _ => True

instance (t : ℕ) (p : PeriodicSys) : ∀ L, Decidable (InTime t p L)
  | .processTimers now => inferInstanceAs (Decidable (p.instant ≤ (now t).expired ∧
      (now t).behind = (now t).expired ∧ (now t).restart = (now t).expired))
  | .construct _ | .destroy _ | .stop _ | .start _ _ _ _ | .connect _ _ | .disconnect _ _
  | .advance _ => isTrue trivial

/-- In a pass in which the timer is due, the next deadline does not overflow. -/
def Representable (t : ℕ) (L : TimerLabel) (p : PeriodicSys) : Prop :=
  match L with
  | .processTimers now => due now p.timers t = true →
      TimePoint.InRange (p.timers.timer t).expireTime (p.timers.timer t).timeout
  | _ => True

instance (t : ℕ) : ∀ L p, Decidable (Representable t L p)
  | .processTimers now, p => inferInstanceAs (Decidable (due now p.timers t = true →
      TimePoint.InRange (p.timers.timer t).expireTime (p.timers.timer t).timeout))
  | .construct _, _ | .destroy _, _ | .stop _, _ | .start _ _ _ _, _ | .connect _ _, _
  | .disconnect _ _, _ | .advance _, _ => isTrue trivial

def update (maxExpired t : ℕ) (P : ℤ) (L : TimerLabel) (p : PeriodicSys) : PeriodicSys :=
  let s := Timers.update maxExpired L p.timers
  match L with
  | .processTimers now =>
    { timers := s
      firings := p.firings + fired t p.timers.passes s
      instant := (now t).expired
      steady := p.steady && decide ((now t).expired - p.instant ≤ P) }
  | _ => { p with timers := s }

/-- The timer right after its `Start`, among whatever timers there are. -/
def Started (maxExpired t : ℕ) (P s₀ : ℤ) (p : PeriodicSys) : Prop :=
  ∃ r, (timerLts maxExpired).Reachable r ∧ r.faulted = false ∧ t ∈ r.objects ∧
    p = ⟨r.start t P false s₀, 0, s₀, true⟩

end PeriodicSys

open Timers PeriodicSys in
/-- Passes and operations in any order, but the timer is not started again, stopped
or destroyed. -/
def periodicLts (maxExpired t : ℕ) (P s₀ : ℤ) : Lts PeriodicSys TimerLabel where
  init := Started maxExpired t P s₀
  guard := fun L p => Timers.guard L p.timers ∧ ¬ Operates t L ∧ InTime t p L
  update := PeriodicSys.update maxExpired t P

namespace PeriodicSys

open Timers

variable {maxExpired t : ℕ} {P s₀ : ℤ} {p : PeriodicSys}

instance (L : TimerLabel) (p : PeriodicSys) :
    Decidable ((periodicLts maxExpired t P s₀).guard L p) :=
  inferInstanceAs (Decidable (Timers.guard L p.timers ∧ ¬ Operates t L ∧ InTime t p L))

/-- The deadline is at least the next multiple of the period, and exactly that as
long as the passes are steady. -/
structure PeriodicInv (maxExpired t : ℕ) (P s₀ : ℤ) (p : PeriodicSys) : Prop where
  reachable : (timerLts maxExpired).Reachable p.timers
  object : t ∈ p.timers.objects
  due : s₀ + p.firings * P ≤ p.instant
  deadline : p.timers.faulted = false → ∃ e, p.timers.timer t = ⟨P, e, true, false⟩ ∧
    s₀ + (p.firings + 1) * P ≤ e ∧
    (p.steady = true → e = s₀ + (p.firings + 1) * P ∧ p.instant < e)

theorem PeriodicInv.start (hP : 0 < P) (hs₀ : TimePoint.InRange s₀ P)
    (h : Started maxExpired t P s₀ p) : PeriodicInv maxExpired t P s₀ p := by
  rcases h with ⟨r, hr, hf, ht, rfl⟩
  have hframe := start_frame hP s₀ r t false
  have hg : (timerLts maxExpired).guard (.start t P false s₀) r := ⟨hf, ht⟩
  constructor
  · exact hr.next hg trivial
  · show t ∈ (r.start t P false s₀).objects
    rwa [hframe.objects]
  · simp
  · intro _
    refine ⟨s₀ + P, ?_, ?_, fun _ => ⟨?_, ?_⟩⟩
    · show (r.start t P false s₀).timer t = _
      rw [hframe.timer, Function.update_self, TimePoint.add_eq hs₀]
    · simp
    · simp
    · show s₀ < s₀ + P
      omega

/-- In a pass that returns, the timer fires once if it is due. -/
theorem fired_eq {l : List ℕ} {s s' : Timers} {now : ℕ → Readings} (hlist : ListInv l s)
    (ht : t ∈ s.objects) (hf : s.faulted = false) (hpass : Passed now l s s') :
    fired t s.passes s' = (Timers.due now s t).toNat := by
  have hcount : (collected now s l).countP (fun x => x.timer = t) =
      (l.filter (Timers.due now s)).count t := by
    rw [collected, List.countP_map, List.count]
    apply List.countP_congr
    intro u _
    simp
  unfold fired
  rw [hpass.faulted, hf, hpass.snapshots, Function.update_self, if_neg Bool.false_ne_true, hcount]
  cases hdue : Timers.due now s t with
  | false => exact List.count_eq_zero_of_not_mem (by simp [hdue])
  | true =>
    -- a timer that is due is in the list, and in it once
    have hen : (s.timer t).enabled = true := (Bool.and_eq_true_iff.mp hdue).1
    have hmem := List.mem_filter.mpr ⟨hlist.enabled t ht hen, hdue⟩
    exact List.count_eq_one_of_mem (hlist.nodup.filter _) hmem

/-- What a check at the time `τ` makes of a deadline. -/
theorem expire_periodic {P e τ : ℤ} {now : Readings} (hb : now.behind = τ) (hr : now.restart = τ)
    (hrange : TimePoint.InRange e P) :
    Timer.expire now ⟨P, e, true, false⟩ = ⟨P, max τ (e + P), true, false⟩ := by
  unfold Timer.expire
  simp only [Bool.false_eq_true, if_false, hb, hr, gt_iff_lt, TimePoint.add_eq hrange]
  split
  case isTrue h => rw [max_eq_left (by omega)]
  case isFalse h => rw [max_eq_right (by omega)]

theorem PeriodicInv.pass {now : ℕ → Readings} (h : PeriodicInv maxExpired t P s₀ p)
    (hg : (periodicLts maxExpired t P s₀).guard (.processTimers now) p)
    (hok : Representable t (.processTimers now) p) :
    PeriodicInv maxExpired t P s₀ (update maxExpired t P (.processTimers now) p) := by
  have ⟨hf, _, hle, hbehind, hrestart⟩ := hg
  have ⟨l, hlist⟩ := list_of_reachable h.reachable
  have hr' := reachable_pass h.reachable hf now
  have hobj : t ∈ (p.timers.processTimers maxExpired now).objects := by
    rw [(hlist.processTimers maxExpired now).2.1]
    exact h.object
  rcases h.deadline hf with ⟨e, htimer, hearliest, hsteady⟩
  have hdue : Timers.due now p.timers t = decide (e ≤ (now t).expired) := by
    rw [Timers.due, htimer]
    rfl
  have hcount := h.due
  by_cases hfits : Fits maxExpired (Timers.due now p.timers) 0 (visited p.timers l)
  · have hpass := (hlist.pass maxExpired now).1 hfits
    have hfired := fired_eq hlist h.object hf hpass
    have hnew := hpass.timer t h.object
    rw [htimer] at hnew
    rw [hdue] at hfired hnew
    by_cases hnow : e ≤ (now t).expired
    · -- it fires: the deadline moves by a period, or to the time of this pass
      have hrange : TimePoint.InRange e P := by
        have hnext := hok (hdue.trans (decide_eq_true hnow))
        rwa [htimer] at hnext
      rw [expire_periodic hbehind hrestart hrange] at hnew
      rw [decide_eq_true hnow] at hfired hnew
      rw [if_pos rfl] at hnew
      have hone : (update maxExpired t P (.processTimers now) p).firings = p.firings + 1 :=
        congrArg (p.firings + ·) hfired
      constructor
      · exact hr'
      · exact hobj
      · rw [hone]
        show s₀ + ((p.firings + 1 : ℕ) : ℤ) * P ≤ (now t).expired
        push_cast
        omega
      · intro _
        refine ⟨_, hnew, ?_, ?_⟩
        · rw [hone]
          push_cast
          have hmax := le_max_right (now t).expired (e + P)
          linarith
        · intro hst
          have ⟨hst, hgap⟩ := Bool.and_eq_true_iff.mp hst
          have hgap := of_decide_eq_true hgap
          have ⟨hexact, hbefore⟩ := hsteady hst
          -- the last pass was before the deadline, and this one is at most a period later
          have hmax : max (now t).expired (e + P) = e + P := max_eq_right (by omega)
          rw [hmax, hone]
          push_cast
          constructor
          · linarith
          · show (now t).expired < e + P
            omega
    · rw [decide_eq_false hnow] at hfired hnew
      rw [if_neg Bool.false_ne_true] at hnew
      have hnone : (update maxExpired t P (.processTimers now) p).firings = p.firings :=
        congrArg (p.firings + ·) hfired
      constructor
      · exact hr'
      · exact hobj
      · rw [hnone]
        exact hcount.trans hle
      · intro _
        rw [hnone]
        refine ⟨e, hnew, hearliest, fun hst => ⟨?_, ?_⟩⟩
        · exact (hsteady (Bool.and_eq_true_iff.mp hst).1).1
        · exact Int.lt_of_not_ge hnow
  · -- the pass ends the program
    have hfaulted := (hlist.pass maxExpired now).2 hfits
    have hnone : (update maxExpired t P (.processTimers now) p).firings = p.firings := by
      show p.firings + fired t p.timers.passes (p.timers.processTimers maxExpired now) = p.firings
      rw [fired, hfaulted]
      rfl
    constructor
    · exact hr'
    · exact hobj
    · rw [hnone]
      exact hcount.trans hle
    · intro hno
      exact absurd (hfaulted.symm.trans hno) (by decide)

theorem PeriodicInv.step {L : TimerLabel} (h : PeriodicInv maxExpired t P s₀ p)
    (hg : (periodicLts maxExpired t P s₀).guard L p) (hok : Representable t L p) :
    PeriodicInv maxExpired t P s₀ (update maxExpired t P L p) := by
  by_cases hpass : ∃ now, L = .processTimers now
  · rcases hpass with ⟨now, rfl⟩
    exact h.pass hg hok
  · have hno : ∀ now, L ≠ .processTimers now := fun now he => hpass ⟨now, he⟩
    have ⟨hsame, hobj, hf⟩ := timer_untouched maxExpired h.object hg.2.1 hno
    have heq : update maxExpired t P L p =
        { p with timers := Timers.update maxExpired L p.timers } := by
      cases L with
      | processTimers now => exact absurd rfl (hno now)
      | _ => rfl
    rw [heq]
    constructor
    · exact h.reachable.next (l := L) hg.1 trivial
    · exact hobj
    · exact h.due
    · intro hf'
      rw [hsame]
      exact h.deadline (hf.symm.trans hf')

theorem periodic_of_reachable (hP : 0 < P) (hs₀ : TimePoint.InRange s₀ P)
    (hr : (periodicLts maxExpired t P s₀).ReachableWhen (Representable t) p) :
    PeriodicInv maxExpired t P s₀ p := by
  apply hr.induct
  · intro p hp
    exact PeriodicInv.start hP hs₀ hp
  · intro L p _ hg hok h
    exact h.step hg hok

/-- A timer that is the only one. -/
theorem started_construct (maxExpired : ℕ) (s₀ : ℤ) : Started maxExpired 0 P s₀
    ⟨(Timers.initial.construct 0).start 0 P false s₀, 0, s₀, true⟩ := by
  refine ⟨Timers.initial.construct 0, ?_, rfl, List.mem_cons_self, rfl⟩
  have hg : (timerLts maxExpired).guard (.construct 0) Timers.initial := ⟨rfl, List.not_mem_nil⟩
  exact (Lts.ReachableWhen.start rfl).next hg trivial

/-- A periodic timer fires at most once in a pass, by any time at most as often as its
period has elapsed since its start, and exactly so often by the last pass if no pass
was more than a period after the one before it: in every run in which neither the
first deadline nor the next one of an expiry overflows. -/
theorem periodic_firings (hP : 0 < P) (hs₀ : TimePoint.InRange s₀ P)
    (hr : (periodicLts maxExpired t P s₀).ReachableWhen (Representable t) p) :
    (∀ now, (periodicLts maxExpired t P s₀).guard (.processTimers now) p →
      fired t p.timers.passes (p.timers.processTimers maxExpired now) ≤ 1) ∧
    (∀ τ, p.instant ≤ τ → (p.firings : ℤ) ≤ (τ - s₀) / P) ∧
    (p.timers.faulted = false → p.steady = true → (p.firings : ℤ) = (p.instant - s₀) / P) := by
  have h := periodic_of_reachable hP hs₀ hr
  have hcount := h.due
  refine ⟨?_, ?_, ?_⟩
  · intro now hg
    have ⟨l, hlist⟩ := list_of_reachable h.reachable
    by_cases hfits : Fits maxExpired (Timers.due now p.timers) 0 (visited p.timers l)
    · rw [fired_eq hlist h.object hg.1 ((hlist.pass maxExpired now).1 hfits)]
      exact Bool.toNat_le _
    · rw [fired, (hlist.pass maxExpired now).2 hfits]
      exact Nat.zero_le 1
  · intro τ hτ
    rw [Int.le_ediv_iff_mul_le hP]
    omega
  · intro hf hst
    rcases h.deadline hf with ⟨e, -, -, hsteady⟩
    have ⟨hexact, hbefore⟩ := hsteady hst
    apply le_antisymm
    · rw [Int.le_ediv_iff_mul_le hP]
      omega
    · apply Int.le_of_lt_add_one
      rw [Int.ediv_lt_iff_lt_mul hP]
      omega

/-- Two steady firings. -/
theorem periodic_firings_run :
    ∃ p, (periodicLts 16 0 10 0).ReachableWhen (Representable 0) p ∧ p.instant = 25 ∧
      (p.firings : ℤ) = (p.instant - 0) / 10 := by
  have hinit := started_construct 16 (P := 10) 0
  obtain ⟨p, hr, hp⟩ := (periodicLts 16 0 10 0).execWhen_reachable (Representable 0) hinit
    [.processTimers fun _ => ⟨7, 7, 7⟩, .construct 1, .processTimers fun _ => ⟨15, 15, 15⟩,
      .start 1 4 false 15, .processTimers fun _ => ⟨25, 25, 25⟩]
    (fun p => p.instant = 25 ∧ p.timers.faulted = false ∧ p.steady = true) (by decide +kernel)
  obtain ⟨hinstant, hf, hst⟩ : _ ∧ _ ∧ _ := of_decide_eq_true hp
  exact ⟨p, hr, hinstant, (periodic_firings (by decide) (by decide) hr).2.2 hf hst⟩

/-- A timer with the timeout `Duration::max()` is started at 1 and fires in the passes at
1 and at 2. -/
theorem not_periodic_firings :
    ∃ p, (periodicLts 16 0 9223372036854775807 1).Reachable p ∧ p.instant = 2 ∧
      p.firings = 2 ∧ (p.instant - 1) / 9223372036854775807 = 0 := by
  have hinit := started_construct 16 (P := 9223372036854775807) 1
  obtain ⟨p, hr, hp⟩ := (periodicLts 16 0 9223372036854775807 1).execWhen_reachable Lts.always
    hinit [.processTimers fun _ => ⟨1, 1, 1⟩, .processTimers fun _ => ⟨2, 2, 2⟩]
    (fun p => p.instant = 2 ∧ p.firings = 2) (by decide +kernel)
  obtain ⟨hinstant, hfirings⟩ : _ ∧ _ := of_decide_eq_true hp
  refine ⟨p, hr, hinstant, hfirings, ?_⟩
  rw [hinstant]
  decide

end PeriodicSys

end AsyncSqlite
