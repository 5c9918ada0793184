import Mathlib.Data.List.Perm.Subperm
import AsyncSqlite.Timer.Model

/-!
# AsyncSqlite.Timer.List — the intrusive list of timers

`ListInv` ties the links to a list: distinct constructed timers, every enabled
one among them, and only enabled ones while the flag of `Stop` is down. The
last part is what lets `ProcessTimers` skip its removal loop, and the reason
why a one-shot expiry raises the flag.

`timer_list_invariant` is the invariant in every state of every run.
-/

namespace AsyncSqlite

namespace Timers

variable {s s' : Timers} {l : List ℕ} {t : ℕ}

structure ListInv (l : List ℕ) (s : Timers) : Prop where
  holds : s.links.Holds l
  constructed : ∀ t ∈ l, t ∈ s.objects
  enabled : ∀ t ∈ s.objects, (s.timer t).enabled = true → t ∈ l
  stopped : s.timerStopped = false → ∀ t ∈ l, (s.timer t).enabled = true
  objects : s.objects.Nodup
  ended : s.diverged = false

theorem ListInv.nodup (h : ListInv l s) : l.Nodup := h.holds.nodup

/-- A loop over the list has enough fuel. -/
theorem ListInv.length_lt (h : ListInv l s) : l.length < s.fuel := by
  have hsub : l.Subperm s.objects := List.subperm_of_subset h.nodup h.constructed
  have hlen := hsub.length_le
  unfold fuel
  omega

/-! ## The operations -/

theorem ListInv.construct (h : ListInv l s) (ht : t ∉ s.objects) :
    ListInv l (s.construct t) := by
  have hout : t ∉ l := fun hl => ht (h.constructed t hl)
  constructor
  · refine h.holds.congr fun a ha => ?_
    have hat : a ≠ t := by
      rintro rfl
      exact hout ha
    simp [Timers.construct, Links.write, Function.update_of_ne hat]
  · intro a ha
    exact List.mem_cons_of_mem t (h.constructed a ha)
  · intro a ha hen
    by_cases hat : a = t
    · subst hat
      simp [Timers.construct, setTimer, Timer.constructed] at hen
    · simp only [Timers.construct, setTimer, Function.update_of_ne hat] at hen
      rcases List.mem_cons.mp ha with rfl | ha
      · exact absurd rfl hat
      · exact h.enabled a ha hen
  · intro hst a ha
    have hat : a ≠ t := by
      rintro rfl
      exact hout ha
    simp only [Timers.construct, setTimer, Function.update_of_ne hat]
    exact h.stopped hst a ha
  · exact List.nodup_cons.mpr ⟨ht, h.objects⟩
  · exact h.ended

theorem ListInv.destroy (h : ListInv l s) (t : ℕ) : ListInv (l.erase t) (s.destroy t) := by
  rcases h.holds.unlink t h.length_lt with ⟨links, hrun, hholds⟩
  have heq : s.destroy t = { s with
      links := links
      onExpired := Function.update s.onExpired t []
      objects := s.objects.erase t } := by
    simp [Timers.destroy, hrun, withLinks]
  rw [heq]
  constructor
  · exact hholds
  · intro a ha
    rcases (h.nodup.mem_erase_iff).mp ha with ⟨hat, ha⟩
    exact (h.objects.mem_erase_iff).mpr ⟨hat, h.constructed a ha⟩
  · intro a ha hen
    rcases (h.objects.mem_erase_iff).mp ha with ⟨hat, ha⟩
    exact (h.nodup.mem_erase_iff).mpr ⟨hat, h.enabled a ha hen⟩
  · intro hst a ha
    exact h.stopped hst a (List.mem_of_mem_erase ha)
  · exact h.objects.erase t
  · exact h.ended

/-- `Start` puts the timer in front, unless the list already has it. -/
theorem ListInv.start (h : ListInv l s) (ht : t ∈ s.objects) (timeout : ℤ) (once : Bool)
    (now : ℤ) : ∃ l', ListInv l' (s.start t timeout once now) := by
  unfold Timers.start
  by_cases hpos : timeout ≤ 0
  · rw [if_pos hpos]
    exact ⟨l, h⟩
  rw [if_neg hpos]
  have hfind := Links.Path.find h.holds t h.length_lt
  have hother : ∀ a,
      ((s.setTimer t ⟨timeout, TimePoint.add now timeout, true, once⟩).timer a).enabled = true →
      a = t ∨ (s.timer a).enabled = true := by
    intro a hen
    by_cases hat : a = t
    · exact Or.inl hat
    · simp only [setTimer, Function.update_of_ne hat] at hen
      exact Or.inr hen
  have hkeep : ∀ a, (s.timer a).enabled = true →
      ((s.setTimer t ⟨timeout, TimePoint.add now timeout, true, once⟩).timer a).enabled = true := by
    intro a hen
    by_cases hat : a = t
    · simp [setTimer, hat]
    · simpa [setTimer, Function.update_of_ne hat] using hen
  -- `std::find` decides whether the timer is put in front
  by_cases hl : t ∈ l
  · refine ⟨l, ?_⟩
    simp only [setTimer, fuel] at hfind ⊢
    simp only [hfind, hl, decide_true]
    constructor
    · exact h.holds
    · exact h.constructed
    · intro a ha hen
      rcases hother a hen with rfl | hen
      · exact hl
      · exact h.enabled a ha hen
    · intro hst a ha
      exact hkeep a (h.stopped hst a ha)
    · exact h.objects
    · exact h.ended
  · refine ⟨t :: l, ?_⟩
    simp only [setTimer, fuel] at hfind ⊢
    simp only [hfind, hl, decide_false]
    constructor
    · exact h.holds.pushFront hl
    · intro a ha
      rcases List.mem_cons.mp ha with rfl | ha
      · exact ht
      · exact h.constructed a ha
    · intro a ha hen
      rcases hother a hen with rfl | hen
      · exact List.mem_cons_self
      · exact List.mem_cons_of_mem t (h.enabled a ha hen)
    · intro hst a ha
      rcases List.mem_cons.mp ha with rfl | ha
      · simp
      · exact hkeep a (h.stopped hst a ha)
    · exact h.objects
    · exact h.ended

theorem ListInv.stop (h : ListInv l s) (t : ℕ) : ListInv l (s.stop t) := by
  constructor
  · exact h.holds
  · exact h.constructed
  · intro a ha hen
    refine h.enabled a ha ?_
    by_cases hat : a = t
    · subst hat
      simp [Timers.stop, setTimer] at hen
    · simpa [Timers.stop, setTimer, Function.update_of_ne hat] using hen
  · intro hst
    simp [Timers.stop] at hst
  · exact h.objects
  · exact h.ended

/-! ## The locked part of a pass -/

/-- After the removal loop exactly the enabled timers are left, in order. -/
theorem ListInv.removeStopped (h : ListInv l s) :
    ListInv (l.filter fun t => (s.timer t).enabled) s.removeStopped ∧
      s.removeStopped.timer = s.timer := by
  unfold Timers.removeStopped
  by_cases hst : s.timerStopped = true
  · rw [if_pos hst]
    rcases h.holds.purge (fun t => (s.timer t).enabled) h.length_lt with ⟨links, hrun, hholds⟩
    rw [hrun]
    refine ⟨?_, rfl⟩
    constructor
    · exact hholds
    · intro a ha
      exact h.constructed a (List.mem_filter.mp ha).1
    · intro a ha hen
      exact List.mem_filter.mpr ⟨h.enabled a ha hen, hen⟩
    · intro _ a ha
      exact (List.mem_filter.mp ha).2
    · exact h.objects
    · exact h.ended
  · rw [if_neg hst]
    have hall := h.stopped (by simpa using hst)
    rw [List.filter_eq_self.mpr hall]
    exact ⟨h, rfl⟩

/-- What the collecting loop may do: disable timers, with the flag raised, and
set new expiry times. -/
structure Expires (s s' : Timers) : Prop where
  links : s'.links = s.links
  onExpired : s'.onExpired = s.onExpired
  objects : s'.objects = s.objects
  snapshots : s'.snapshots = s.snapshots
  passes : s'.passes = s.passes
  diverged : s'.diverged = s.diverged
  enabled : ∀ t, (s'.timer t).enabled = true → (s.timer t).enabled = true
  stopped : s'.timerStopped = false →
    s.timerStopped = false ∧ ∀ t, (s.timer t).enabled = true → (s'.timer t).enabled = true

theorem Expires.refl (s : Timers) : Expires s s :=
  ⟨rfl, rfl, rfl, rfl, rfl, rfl, fun _ h => h, fun h => ⟨h, fun _ h => h⟩⟩

theorem Expires.trans {s₁ s₂ s₃ : Timers} (h : Expires s₁ s₂) (h' : Expires s₂ s₃) :
    Expires s₁ s₃ where
  links := h'.links.trans h.links
  onExpired := h'.onExpired.trans h.onExpired
  objects := h'.objects.trans h.objects
  snapshots := h'.snapshots.trans h.snapshots
  passes := h'.passes.trans h.passes
  diverged := h'.diverged.trans h.diverged
  enabled := fun t hen => h.enabled t (h'.enabled t hen)
  stopped := by
    intro hst
    rcases h'.stopped hst with ⟨hst, hkeep'⟩
    rcases h.stopped hst with ⟨hst, hkeep⟩
    exact ⟨hst, fun t hen => hkeep' t (hkeep t hen)⟩

/-- A new expiry time. -/
theorem Expires.reschedule (s : Timers) (t : ℕ) (e : ℤ) :
    Expires s (s.setTimer t { s.timer t with expireTime := e }) := by
  have hsame : ∀ a, ((s.setTimer t { s.timer t with expireTime := e }).timer a).enabled =
      (s.timer a).enabled := by
    intro a
    by_cases hat : a = t
    · subst hat
      simp [setTimer]
    · simp [setTimer, Function.update_of_ne hat]
  constructor <;> try rfl
  · intro a hen
    rwa [hsame] at hen
  · intro hst
    refine ⟨hst, fun a hen => ?_⟩
    rwa [hsame]

/-- A timer expires only while it is enabled, and the flag is raised when that
disables it. -/
theorem checkExpired_expires (now : Readings) (t : ℕ) (s : Timers) :
    Expires s (s.checkExpired now t).2 ∧
      ((s.checkExpired now t).1 = true → (s.timer t).enabled = true) := by
  unfold checkExpired
  dsimp only
  by_cases hen : (s.timer t).enabled = false
  · rw [if_pos hen]
    exact ⟨.refl s, by simp⟩
  have hen' : (s.timer t).enabled = true := by simpa using hen
  rw [if_neg hen]
  refine ⟨?_, fun _ => hen'⟩
  by_cases hearly : now.expired < (s.timer t).expireTime
  · rw [if_pos hearly]
    exact .refl s
  rw [if_neg hearly]
  by_cases honce : (s.timer t).once = true
  -- a one-shot timer is disabled, and the flag raised for the next pass
  · rw [if_pos honce]
    constructor <;> try rfl
    · intro a ha
      by_cases hat : a = t
      · subst hat
        exact hen'
      · simpa [setTimer, Function.update_of_ne hat] using ha
    · intro hst
      simp at hst
  · rw [if_neg honce]
    split
    · exact .reschedule s t _
    · exact .reschedule s t _

/-- The collecting loop over the list `l`: it comes to an end, and a snapshot
is one of an enabled timer of the list. The induction is on the list. -/
theorem collect_expires (maxExpired : ℕ) (now : ℕ → Readings) {p : Option ℕ} {fuel : ℕ}
    (hpath : s.links.Path p l) (hfuel : l.length < fuel) (snaps : List ExpiredSnapshot) :
    Expires s (s.collect maxExpired now fuel p snaps).2 ∧
      ∀ x ∈ (s.collect maxExpired now fuel p snaps).1,
        x ∈ snaps ∨ x.timer ∈ l ∧ (s.timer x.timer).enabled = true := by
  induction l generalizing s p fuel snaps with
  | nil =>
    rcases fuel with _ | fuel
    · exact absurd hfuel (Nat.not_lt_zero _)
    · unfold Links.Path at hpath
      subst hpath
      exact ⟨.refl s, fun x hx => Or.inl hx⟩
  | cons t l ih =>
    rcases fuel with _ | fuel
    · exact absurd hfuel (Nat.not_lt_zero _)
    rcases hpath with ⟨rfl, hpath⟩
    have hfuel' : l.length < fuel := Nat.lt_of_succ_lt_succ hfuel
    unfold collect
    -- `maxExpired` is reached: the loop is left
    split
    · refine ⟨?_, fun x hx => Or.inl hx⟩
      exact ⟨rfl, rfl, rfl, rfl, rfl, rfl, fun _ h => h, fun h => ⟨h, fun _ h => h⟩⟩
    · rcases checkExpired_expires (now t) t s with ⟨hexp, hwas⟩
      rcases hcheck : s.checkExpired (now t) t with ⟨expired, s₁⟩
      rw [hcheck] at hexp hwas
      -- the check moves no link, so the rest of the path is as before
      have hpath₁ : s₁.links.Path (s₁.links.next t) l := by
        rw [hexp.links]
        exact hpath
      have hrest : ∀ snaps, Expires s (s₁.collect maxExpired now fuel (s₁.links.next t) snaps).2 ∧
          ∀ x ∈ (s₁.collect maxExpired now fuel (s₁.links.next t) snaps).1,
            x ∈ snaps ∨ x.timer ∈ t :: l ∧ (s.timer x.timer).enabled = true := by
        intro snaps
        rcases ih hpath₁ hfuel' snaps with ⟨hloop, hfrom⟩
        refine ⟨hexp.trans hloop, fun x hx => ?_⟩
        rcases hfrom x hx with hx | ⟨hx, hen⟩
        · exact Or.inl hx
        · exact Or.inr ⟨List.mem_cons_of_mem t hx, hexp.enabled _ hen⟩
      cases expired with
      | false => exact hrest snaps
      | true =>
        refine ⟨(hrest _).1, fun x hx => ?_⟩
        rcases (hrest _).2 x hx with hx | hx
        · rcases List.mem_append.mp hx with hx | hx
          · exact Or.inl hx
          · rw [List.mem_singleton.mp hx]
            exact Or.inr ⟨List.mem_cons_self, hwas rfl⟩
        · exact Or.inr hx

theorem ListInv.expires (h : ListInv l s) (hexp : Expires s s') : ListInv l s' where
  holds := by
    rw [hexp.links]
    exact h.holds
  constructed := by
    rw [hexp.objects]
    exact h.constructed
  enabled := by
    intro t ht hen
    rw [hexp.objects] at ht
    exact h.enabled t ht (hexp.enabled t hen)
  stopped := by
    intro hst t ht
    rcases hexp.stopped hst with ⟨hst, hkeep⟩
    exact hkeep t (h.stopped hst t ht)
  objects := by
    rw [hexp.objects]
    exact h.objects
  ended := by rw [hexp.diverged, h.ended]

/-- The locked part of a pass: the list keeps what was enabled, and a new pass
comes into being with snapshots of such timers. -/
theorem ListInv.processTimers (h : ListInv l s) (maxExpired : ℕ) (now : ℕ → Readings) :
    ListInv (l.filter fun t => (s.timer t).enabled) (s.processTimers maxExpired now) ∧
      (s.processTimers maxExpired now).objects = s.objects ∧
      (∀ t, ((s.processTimers maxExpired now).timer t).enabled = true →
        (s.timer t).enabled = true) ∧
      (s.processTimers maxExpired now).passes = s.passes + 1 ∧
      ∃ snaps, (s.processTimers maxExpired now).snapshots =
          Function.update s.snapshots s.passes snaps ∧
        ∀ x ∈ snaps, x.timer ∈ l ∧ (s.timer x.timer).enabled = true := by
  -- first the disabled timers leave the list, then the rest is visited
  rcases h.removeStopped with ⟨hpurged, htimer⟩
  have hframe : s.removeStopped.snapshots = s.snapshots ∧ s.removeStopped.passes = s.passes ∧
      s.removeStopped.objects = s.objects := by
    unfold Timers.removeStopped withLinks
    repeat' split
    all_goals exact ⟨rfl, rfl, rfl⟩
  rcases hframe with ⟨hsnaps, hpasses, hobjects⟩
  rcases collect_expires maxExpired now hpurged.holds hpurged.length_lt [] with
    ⟨hexp, hfrom⟩
  rcases hcollect : s.removeStopped.collect maxExpired now s.removeStopped.fuel
    s.removeStopped.links.head [] with ⟨snaps, s₂⟩
  rw [hcollect] at hexp hfrom
  have hinv := hpurged.expires hexp
  have heq : s.processTimers maxExpired now = { s₂ with
      snapshots := Function.update s₂.snapshots s₂.passes snaps
      passes := s₂.passes + 1 } := by
    simp only [Timers.processTimers, hcollect]
  rw [heq]
  refine ⟨⟨hinv.1, hinv.2, hinv.3, hinv.4, hinv.5, hinv.6⟩, ?_, ?_, ?_, snaps, ?_, ?_⟩
  · exact hexp.objects.trans hobjects
  · intro t hen
    rw [← htimer]
    exact hexp.enabled t hen
  · exact congrArg (· + 1) (hexp.passes.trans hpasses)
  · dsimp only at hexp ⊢
    rw [hexp.snapshots, hexp.passes, hsnaps, hpasses]
  · intro x hx
    rcases hfrom x hx with hx | ⟨hx, hen⟩
    · exact absurd hx List.not_mem_nil
    · rw [htimer] at hen
      exact ⟨(List.mem_filter.mp hx).1, hen⟩

/-! ## Whole runs -/

theorem ListInv.initial : ListInv [] Timers.initial :=
  ⟨rfl, by simp, by simp [Timers.initial], by simp, List.nodup_nil, rfl⟩

theorem ListInv.step {maxExpired : ℕ} {L : TimerLabel} (h : ListInv l s) (hg : guard L s) :
    ∃ l', ListInv l' (update maxExpired L s) := by
  cases L with
  | construct t => exact ⟨l, h.construct hg.2⟩
  | destroy t => exact ⟨l.erase t, h.destroy t⟩
  | start t timeout once now => exact h.start hg.2 timeout once now
  | stop t => exact ⟨l, h.stop t⟩
  | connect t d => exact ⟨l, h.1, h.2, h.3, h.4, h.5, h.6⟩
  | disconnect t d => exact ⟨l, h.1, h.2, h.3, h.4, h.5, h.6⟩
  | processTimers now => exact ⟨_, (h.processTimers maxExpired now).1⟩
  | advance i => exact ⟨l, h.1, h.2, h.3, h.4, h.5, h.6⟩

theorem list_of_reachable {maxExpired : ℕ} (hr : (timerLts maxExpired).Reachable s) :
    ∃ l, ListInv l s := by
  refine hr.induct (P := fun s => ∃ l, ListInv l s) ?_ ?_
  · rintro s rfl
    exact ⟨[], .initial⟩
  · rintro L s - hg - ⟨l, h⟩
    exact h.step hg

/-- In every reachable state no loop over the list has failed to end, the links
lead through distinct timers that exist, every enabled timer among them; and
the locked part of a pass leaves no timer that was disabled before it. -/
theorem timer_list_invariant {maxExpired : ℕ} (hr : (timerLts maxExpired).Reachable s) :
    s.diverged = false ∧
      (∃ l, s.links.Holds l ∧ l.Nodup ∧
        (∀ t ∈ s.objects, (s.timer t).enabled = true → t ∈ l) ∧ ∀ t ∈ l, t ∈ s.objects) ∧
      ∀ now, (s.processTimers maxExpired now).diverged = false ∧
        ∃ l, (s.processTimers maxExpired now).links.Holds l ∧
          ∀ t ∈ l, (s.timer t).enabled = true := by
  rcases list_of_reachable hr with ⟨l, h⟩
  refine ⟨h.ended, ⟨l, h.holds, h.nodup, h.enabled, h.constructed⟩, fun now => ?_⟩
  have hpass := (h.processTimers maxExpired now).1
  exact ⟨hpass.ended, _, hpass.holds, fun t ht => (List.mem_filter.mp ht).2⟩

/-- A one-shot timer expires while a callback stops one timer and destroys
another. -/
def listRun : List TimerLabel :=
  [.construct 0, .construct 1, .construct 2, .start 0 5 true 0, .start 1 5 false 0,
    .start 2 9 false 0, .processTimers fun _ => ⟨5, 5, 5⟩, .stop 1, .destroy 2]

theorem timer_list_invariant_run :
    ∃ s, (timerLts 16).Reachable s ∧ s.links.walk 3 s.links.head = some [1, 0] ∧
      ∃ l, (s.processTimers 16 fun _ => ⟨6, 6, 6⟩).links.Holds l ∧
        ∀ t ∈ l, (s.timer t).enabled = true := by
  obtain ⟨s, hr, hp⟩ := (timerLts 16).execWhen_reachable Lts.always rfl listRun
    (fun s => s.links.walk 3 s.links.head = some [1, 0]) (by decide)
  exact ⟨s, hr, of_decide_eq_true hp, ((timer_list_invariant hr).2.2 _).2⟩

end Timers

end AsyncSqlite
