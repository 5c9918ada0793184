import AsyncSqlite.Timer.List

/-!
# AsyncSqlite.Timer.Stop — callbacks after `Stop`

`ProcessTimers` calls the subscribers without the lock, from snapshots that
share ownership of the delegates, so that a timer may be stopped or destroyed
meanwhile. A pass that had collected a timer before its `Stop` still calls what
it collected (`callback_after_stop`). No other callback comes: until the next
`Start`, no pass collects the timer (`stopped_timer_not_collected`).
-/

namespace AsyncSqlite

namespace Timers

variable {s s' : Timers} {t : ℕ} {maxExpired : ℕ}

/-- Every subscriber that the pass `i` has left to call for the timer `t` is
one that it had left to call in `s₀`. -/
structure Quiet (s₀ : Timers) (t : ℕ) (s : Timers) : Prop where
  idle : t ∈ s.objects → (s.timer t).enabled = false
  passes : s₀.passes ≤ s.passes
  pending : ∀ i, ∀ x ∈ s.snapshots i, x.timer = t → i < s₀.passes ∧
    ∃ x₀ ∈ s₀.snapshots i, x₀.timer = t ∧ ∀ d ∈ x.delegates, d ∈ x₀.delegates

/-- Passes that have not begun have collected nothing. -/
def FreshInv (s : Timers) : Prop := ∀ i, s.passes ≤ i → s.snapshots i = []

/-! ## Steps -/

/-- The objects, and which of them are enabled, change by their own operations
only. -/
theorem operation_frame (maxExpired : ℕ) {L : TimerLabel} (hg : guard L s)
    (hpass : ∀ now, L ≠ .processTimers now) (hadvance : ∀ i, L ≠ .advance i) :
    (update maxExpired L s).snapshots = s.snapshots ∧
      (update maxExpired L s).passes = s.passes ∧
      ((∀ timeout once now, L ≠ .start t timeout once now) →
        (t ∈ s.objects → (s.timer t).enabled = false) →
        t ∈ (update maxExpired L s).objects →
          ((update maxExpired L s).timer t).enabled = false) := by
  cases L with
  | construct a =>
    refine ⟨rfl, rfl, fun _ hidle ht => ?_⟩
    simp only [update, construct, setTimer] at ht ⊢
    by_cases hta : t = a
    · simp [hta, Timer.constructed]
    · rw [Function.update_of_ne hta]
      rcases List.mem_cons.mp ht with hta' | ht
      · exact absurd hta' hta
      · exact hidle ht
  | destroy a =>
    simp only [update, destroy, withLinks]
    split
    all_goals
      refine ⟨rfl, rfl, fun _ hidle ht => ?_⟩
      exact hidle (List.mem_of_mem_erase ht)
  | start a timeout once now =>
    simp only [update, start]
    by_cases hpos : timeout ≤ 0
    · rw [if_pos hpos]
      exact ⟨rfl, rfl, fun _ hidle => hidle⟩
    rw [if_neg hpos]
    have hother : (∀ timeout' once' now', TimerLabel.start a timeout once now ≠
        .start t timeout' once' now') → t ≠ a := by
      rintro hne rfl
      exact hne timeout once now rfl
    -- whether or not the list has the timer, `start` writes its own object only
    split
    all_goals
      refine ⟨rfl, rfl, fun hne hidle ht => ?_⟩
      simp only [setTimer, Function.update_of_ne (hother hne)]
      exact hidle ht
  | stop a =>
    refine ⟨rfl, rfl, fun _ hidle ht => ?_⟩
    simp only [update, stop, setTimer] at ht ⊢
    by_cases hta : t = a
    · simp [hta]
    · rw [Function.update_of_ne hta]
      exact hidle ht
  | connect a d => exact ⟨rfl, rfl, fun _ hidle => hidle⟩
  | disconnect a d => exact ⟨rfl, rfl, fun _ hidle => hidle⟩
  | processTimers now => exact absurd rfl (hpass now)
  | advance i => exact absurd rfl (hadvance i)

/-- What a pass has left only gets less. -/
theorem mem_advance {i j : ℕ} {x : ExpiredSnapshot} (hx : x ∈ (s.advance i).snapshots j) :
    ∃ x₀ ∈ s.snapshots j, x₀.timer = x.timer ∧ ∀ d ∈ x.delegates, d ∈ x₀.delegates := by
  unfold advance at hx
  by_cases hji : j = i
  · subst hji
    simp only [Function.update_self] at hx
    split at hx
    · rename_i a d ds rest hsnaps
      rw [hsnaps]
      rcases List.mem_cons.mp hx with rfl | hx
      · exact ⟨_, List.mem_cons_self, rfl, fun b hb => List.mem_cons_of_mem d hb⟩
      · exact ⟨x, List.mem_cons_of_mem _ hx, rfl, fun _ hd => hd⟩
    · rename_i a rest hsnaps
      rw [hsnaps]
      exact ⟨x, List.mem_cons_of_mem _ hx, rfl, fun _ hd => hd⟩
    · exact absurd hx List.not_mem_nil
  · simp only [Function.update_of_ne hji] at hx
    exact ⟨x, hx, rfl, fun _ hd => hd⟩

theorem FreshInv.step (maxExpired : ℕ) {l : List ℕ} {L : TimerLabel} (h : FreshInv s)
    (hlist : ListInv l s) (hg : guard L s) : FreshInv (update maxExpired L s) := by
  by_cases hpass : ∃ now, L = .processTimers now
  · rcases hpass with ⟨now, rfl⟩
    rcases (hlist.processTimers maxExpired now).2.2.2 with ⟨hpasses, snaps, hsnaps, -⟩
    intro i hi
    simp only [update] at hi ⊢
    -- the pass that begins takes the number `s.passes`
    have hne : i ≠ s.passes := by omega
    rw [hsnaps, Function.update_of_ne hne]
    exact h i (by omega)
  by_cases hadvance : ∃ i, L = .advance i
  · rcases hadvance with ⟨i, rfl⟩
    intro j hj
    have hne : j ≠ i := by
      have hlt : i < s.passes := hg.2.1
      simp only [update, advance] at hj
      omega
    simp only [update, advance, Function.update_of_ne hne]
    exact h j hj
  · rcases operation_frame (t := 0) maxExpired hg (fun now he => hpass ⟨now, he⟩)
      (fun i he => hadvance ⟨i, he⟩) with ⟨hsnaps, hpasses, -⟩
    intro i hi
    rw [hpasses] at hi
    rw [hsnaps]
    exact h i hi

theorem fresh_of_reachable (hr : (timerLts maxExpired).Reachable s) : FreshInv s := by
  refine hr.induct (P := FreshInv) ?_ ?_
  · rintro s rfl i -
    rfl
  · rintro L s hr hg - h
    rcases list_of_reachable hr with ⟨l, hlist⟩
    exact h.step maxExpired hlist hg

/-- A pass collects enabled timers only, and the timer `t` is not one. -/
theorem Quiet.step (maxExpired : ℕ) {s₀ : Timers} {l : List ℕ} {L : TimerLabel} (h : Quiet s₀ t s)
    (hlist : ListInv l s) (hg : guard L s)
    (hstart : ∀ timeout once now, L ≠ .start t timeout once now) :
    Quiet s₀ t (update maxExpired L s) := by
  by_cases hpass : ∃ now, L = .processTimers now
  · rcases hpass with ⟨now, rfl⟩
    rcases hlist.processTimers maxExpired now with ⟨-, hobjects, hen, hpasses, snaps, hsnaps, hfrom⟩
    constructor
    · intro ht
      simp only [update] at ht ⊢
      rw [hobjects] at ht
      by_contra hnot
      have htrue := hen t (by simpa using hnot)
      rw [h.idle ht] at htrue
      cases htrue
    · have hle := h.passes
      simp only [update]
      omega
    · intro i x hx hxt
      simp only [update] at hx
      rw [hsnaps] at hx
      -- the new pass holds enabled timers; the others have not changed
      by_cases hi : i = s.passes
      · subst hi
        rw [Function.update_self] at hx
        rcases hfrom x hx with ⟨hl, htrue⟩
        rw [hxt] at hl htrue
        rw [h.idle (hlist.constructed t hl)] at htrue
        cases htrue
      · rw [Function.update_of_ne hi] at hx
        exact h.pending i x hx hxt
  by_cases hadvance : ∃ i, L = .advance i
  · rcases hadvance with ⟨i, rfl⟩
    refine ⟨h.idle, h.passes, fun j x hx hxt => ?_⟩
    rcases mem_advance hx with ⟨y, hy, hyx, hsub⟩
    rcases h.pending j y hy (hyx.trans hxt) with ⟨hj, x₀, hx₀, hxt₀, hsub₀⟩
    exact ⟨hj, x₀, hx₀, hxt₀, fun d hd => hsub₀ d (hsub d hd)⟩
  · rcases operation_frame (t := t) maxExpired hg
      (fun now he => hpass ⟨now, he⟩) (fun i he => hadvance ⟨i, he⟩) with
      ⟨hsnaps, hpasses, hidle⟩
    constructor
    · exact hidle hstart h.idle
    · rw [hpasses]
      exact h.passes
    · intro i x hx
      rw [hsnaps] at hx
      exact h.pending i x hx

/-! ## After `Stop` -/

/-- The state in which `Stop` or the destructor has returned. -/
theorem Quiet.stopped (maxExpired : ℕ) {l : List ℕ} {L : TimerLabel} (hlist : ListInv l s)
    (hfresh : FreshInv s) (hg : guard L s) (hL : L = .stop t ∨ L = .destroy t) :
    Quiet (update maxExpired L s) t (update maxExpired L s) := by
  refine ⟨?_, Nat.le_refl _, fun i x hx hxt => ⟨?_, x, hx, hxt, fun _ hd => hd⟩⟩
  · intro ht
    rcases hL with rfl | rfl
    · simp [update, stop, setTimer]
    · simp only [update, destroy] at ht
      exact absurd ht hlist.objects.not_mem_erase
  · by_contra hi
    have hnil := hfresh.step maxExpired hlist hg i (by omega)
    rw [hnil] at hx
    exact absurd hx List.not_mem_nil

theorem Quiet.run {s₀ : Timers} {ls : List TimerLabel} (hr : (timerLts maxExpired).Reachable s)
    (hrun : (timerLts maxExpired).Run s ls s')
    (hls : ∀ timeout once now, .start t timeout once now ∉ ls) (h : Quiet s₀ t s) :
    Quiet s₀ t s' := by
  induction hrun with
  | nil => exact h
  | concat hrun hg ih =>
    rcases list_of_reachable (hr.steps hrun.steps) with ⟨l, hlist⟩
    have hpre := ih fun timeout once now hmem =>
      hls timeout once now (List.mem_append_left _ hmem)
    refine hpre.step maxExpired hlist hg fun timeout once now hl => ?_
    exact hls timeout once now (List.mem_append_right _ (List.mem_singleton.mpr hl.symm))

/-- Once `Stop` or the destructor of a timer has returned, and until it is
started again, a subscriber of it is called only by a pass that had collected
the timer before, and only if it was collected then. -/
theorem stopped_timer_not_collected {L : TimerLabel} {ls : List TimerLabel}
    (hr : (timerLts maxExpired).Reachable s) (hg : guard L s)
    (hL : L = .stop t ∨ L = .destroy t)
    (hrun : (timerLts maxExpired).Run (update maxExpired L s) ls s')
    (hls : ∀ timeout once now, .start t timeout once now ∉ ls) {i d : ℕ}
    (hcall : s'.nextCallback i = some (t, d)) :
    i < s.passes ∧ ∃ x ∈ s.snapshots i, x.timer = t ∧ d ∈ x.delegates := by
  rcases list_of_reachable hr with ⟨l, hlist⟩
  have hquiet := Quiet.stopped maxExpired hlist (fresh_of_reachable hr) hg hL
  have hend := hquiet.run (hr.next (l := L) hg trivial) hrun hls
  have hframe := operation_frame (t := t) maxExpired hg
    (by rcases hL with rfl | rfl <;> simp) (by rcases hL with rfl | rfl <;> simp)
  rcases hframe with ⟨hsnaps, hpasses, -⟩
  unfold nextCallback at hcall
  split at hcall
  · rename_i a b ds rest hhead
    simp only [Option.some.injEq, Prod.mk.injEq] at hcall
    rcases hcall with ⟨rfl, rfl⟩
    have hmem : ⟨a, b :: ds⟩ ∈ s'.snapshots i := by
      rw [hhead]
      exact List.mem_cons_self
    rcases hend.pending i _ hmem rfl with ⟨hi, x, hx, hxt, hsub⟩
    rw [hpasses] at hi
    rw [hsnaps] at hx
    exact ⟨hi, x, hx, hxt, hsub b List.mem_cons_self⟩
  · cases hcall

/-- Two timers expire in one pass. -/
def expireRun : List TimerLabel :=
  [.construct 0, .construct 1, .connect 0 10, .connect 1 11, .start 0 5 false 0,
    .start 1 5 false 0, .processTimers fun _ => ⟨5, 5, 5⟩]

/-- The callback of timer 1 stops timer 0, which the same pass has collected;
later passes leave timer 0 alone. -/
def stopRun : List TimerLabel :=
  [.advance 0, .processTimers fun _ => ⟨10, 10, 10⟩]

theorem stopped_timer_not_collected_run :
    ∃ s s', (timerLts 16).Reachable s ∧ (timerLts 16).Run (s.stop 0) stopRun s' ∧
      s'.nextCallback 0 = some (0, 10) ∧ s'.nextCallback 1 = some (1, 11) ∧
      ∃ x ∈ s.snapshots 0, x.timer = 0 ∧ 10 ∈ x.delegates := by
  obtain ⟨s, hr, hp⟩ := (timerLts 16).execWhen_reachable Lts.always rfl
    (expireRun ++ [.advance 0])
    (fun s => s.faulted = false ∧ 0 ∈ s.objects ∧
      (((timerLts 16).execWhen Lts.always (s.stop 0) stopRun).any fun s' =>
        s'.nextCallback 0 = some (0, 10) ∧ s'.nextCallback 1 = some (1, 11)) = true) (by decide)
  obtain ⟨hfault, hobj, hp⟩ : _ ∧ _ ∧ _ := of_decide_eq_true hp
  obtain ⟨s', hrun, hp'⟩ := (timerLts 16).exec_labelled (s.stop 0) stopRun _ hp
  obtain ⟨h₀, h₁⟩ : _ ∧ _ := of_decide_eq_true hp'
  refine ⟨s, s', hr, hrun, h₀, h₁, ?_⟩
  exact (stopped_timer_not_collected (L := .stop 0) hr ⟨hfault, hobj⟩ (Or.inl rfl) hrun
    (by simp [stopRun]) h₀).2

/-- A pass that has collected timer 0 calls its subscriber after `Stop` has
returned: here `Stop` comes from the callback of timer 1. -/
theorem callback_after_stop :
    ∃ s s', (timerLts 16).Reachable s ∧ guard (.stop 0) s ∧
      (timerLts 16).Run (update 16 (.stop 0) s) [.advance 0] s' ∧
      guard (.advance 0) s' ∧ s'.nextCallback 0 = some (0, 10) := by
  obtain ⟨s, hr, hp⟩ := (timerLts 16).execWhen_reachable Lts.always rfl
    (expireRun ++ [.advance 0])
    (fun s => guard (.stop 0) s ∧
      (((timerLts 16).execWhen Lts.always (s.stop 0) [.advance 0]).any fun s' =>
        guard (.advance 0) s' ∧ s'.nextCallback 0 = some (0, 10)) = true) (by decide)
  obtain ⟨hg, hp⟩ : _ ∧ _ := of_decide_eq_true hp
  obtain ⟨s', hrun, hp'⟩ := (timerLts 16).exec_labelled (s.stop 0) _ _ hp
  obtain ⟨hg', hcall⟩ : _ ∧ _ := of_decide_eq_true hp'
  exact ⟨s, s', hr, hg, hrun, hg', hcall⟩

end Timers

end AsyncSqlite
