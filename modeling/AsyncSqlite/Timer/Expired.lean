import AsyncSqlite.Timer.Stop

/-!
# AsyncSqlite.Timer.Expired — what one pass collects, and when it faults

A pass collects every timer of the list that is due, in the order of the list, and
calls every subscriber of each of them once (`calls_pending`). The loop tests its
capacity before it looks at the next timer, so it faults when it has collected
`MAX_TIMER_EXPIRED` timers and there is one more in the list, whether or not that
one is due (`Fits`, `processTimers_serves_iff`).
-/

namespace AsyncSqlite

/-- What an expiry does to the timer. -/
def Timer.expire (now : Readings) (x : Timer) : Timer :=
  if x.once then { x with enabled := false }
  else if now.behind > TimePoint.add x.expireTime x.timeout then
    { x with expireTime := now.restart }
  else { x with expireTime := TimePoint.add x.expireTime x.timeout }

namespace Timers

variable {s s' s₀ : Timers} {l : List ℕ} {t : ℕ} {maxExpired : ℕ} {now : ℕ → Readings}

/-- The timer is one that `CheckExpired` answers with `true`. -/
def due (now : ℕ → Readings) (s : Timers) (t : ℕ) : Bool :=
  (s.timer t).enabled && decide ((s.timer t).expireTime ≤ (now t).expired)

theorem due_congr (h : s.timer t = s'.timer t) : due now s t = due now s' t := by
  unfold due
  rw [h]

theorem checkExpired_eq (s : Timers) (t : ℕ) : s.checkExpired (now t) t =
    if due now s t then
      (true, { s.setTimer t ((s.timer t).expire (now t)) with
        timerStopped := s.timerStopped || (s.timer t).once })
    else (false, s) := by
  unfold checkExpired due Timer.expire
  by_cases hen : (s.timer t).enabled = true
  · by_cases hearly : (now t).expired < (s.timer t).expireTime
    · have hnot : ¬ (s.timer t).expireTime ≤ (now t).expired := by omega
      simp [hen, hearly, hnot]
    · have hle : (s.timer t).expireTime ≤ (now t).expired := by omega
      by_cases honce : (s.timer t).once = true
      · simp [hen, hearly, hle, honce]
      · simp only [Bool.not_eq_true] at honce
        simp only [hen, hearly, hle, honce, Bool.true_eq_false, if_false, Bool.false_eq_true,
          decide_true, Bool.and_self, if_true, Bool.or_false]
        split
        · rfl
        · rfl
  · simp [hen]

/-! ## The collecting loop -/

/-- The loop gets through `l` when it has `k` snapshots already. -/
def Fits (maxExpired : ℕ) (due : ℕ → Bool) : ℕ → List ℕ → Prop
  | _, [] => True
  | k, t :: l => k < maxExpired ∧ Fits maxExpired due (k + (due t).toNat) l

theorem Fits.congr {due due' : ℕ → Bool} {k : ℕ} (h : ∀ t ∈ l, due t = due' t) :
    Fits maxExpired due k l ↔ Fits maxExpired due' k l := by
  induction l generalizing k with
  | nil => exact Iff.rfl
  | cons t l ih =>
    unfold Fits
    rw [h t List.mem_cons_self, ih fun u hu => h u (List.mem_cons_of_mem t hu)]

/-- If not too many timers are due, the loop gets through unless a timer follows
the last one that it has room for. -/
theorem fits_iff {due : ℕ → Bool} {k : ℕ} (hle : k + (l.filter due).length ≤ maxExpired) :
    Fits maxExpired due k l ↔
      (k + (l.filter due).length = maxExpired → ∀ t ∈ l.getLast?, due t = true) := by
  induction l generalizing k with
  | nil => simp [Fits]
  | cons t l ih =>
    have hcount : (List.filter due (t :: l)).length = (due t).toNat + (l.filter due).length := by
      rw [List.filter_cons]
      cases due t
      · simp
      · simp [Nat.add_comm]
    rw [hcount, ← Nat.add_assoc] at hle ⊢
    unfold Fits
    rw [ih hle]
    cases l with
    | nil =>
      -- the last timer fits exactly if there is room for one that is due
      cases hdue : due t with
      | false =>
        simp [hdue] at hle ⊢
        omega
      | true =>
        simp [hdue] at hle ⊢
        omega
    | cons u l =>
      rw [List.getLast?_cons_cons]
      constructor
      · intro h
        exact h.2
      · intro h
        refine ⟨?_, h⟩
        by_contra hfull
        have hdue := h (by omega) _ (List.getLast?_eq_some_getLast (List.cons_ne_nil u l))
        have hmem := List.mem_filter.mpr ⟨List.getLast_mem (List.cons_ne_nil u l), hdue⟩
        have hpos := List.length_pos_of_mem hmem
        omega

/-- The snapshots of the timers of `l` that are due. -/
def collected (now : ℕ → Readings) (s : Timers) (l : List ℕ) : List ExpiredSnapshot :=
  (l.filter (due now s)).map fun t => ⟨t, s.onExpired t⟩

/-- An expiry changes nothing for the timers behind it. -/
theorem due_behind (ht : t ∉ l) (x : Timer) (stopped : Bool) : ∀ u ∈ l,
    due now { s.setTimer t x with timerStopped := stopped } u = due now s u := by
  intro u hu
  apply due_congr
  have hut : u ≠ t := by
    rintro rfl
    exact ht hu
  exact Function.update_of_ne hut _ _

/-- The loop has got through `l`. -/
structure Collects (now : ℕ → Readings) (s : Timers) (l : List ℕ) (snaps : List ExpiredSnapshot)
    (r : List ExpiredSnapshot × Timers) : Prop where
  snapshots : r.1 = snaps ++ collected now s l
  faulted : r.2.faulted = s.faulted
  timer : ∀ u, r.2.timer u =
    if u ∈ l ∧ due now s u = true then (s.timer u).expire (now u) else s.timer u

/-- A timer that is not due leaves everything as it is. -/
theorem Collects.skip {snaps : List ExpiredSnapshot} {r : List ExpiredSnapshot × Timers}
    (h : Collects now s l snaps r) (hdue : due now s t = false) :
    Collects now s (t :: l) snaps r := by
  constructor
  · rw [h.snapshots, collected, collected, List.filter_cons_of_neg (by simp [hdue])]
  · exact h.faulted
  · intro u
    rw [h.timer]
    by_cases hut : u = t
    · subst hut
      simp [hdue]
    · simp [hut]

/-- A timer that is due is collected, and the timers behind it are as they were. -/
theorem Collects.take {snaps : List ExpiredSnapshot} {r : List ExpiredSnapshot × Timers}
    {stopped : Bool} (ht : t ∉ l) (hdue : due now s t = true)
    (h : Collects now { s.setTimer t ((s.timer t).expire (now t)) with timerStopped := stopped } l
      (snaps ++ [⟨t, s.onExpired t⟩]) r) : Collects now s (t :: l) snaps r := by
  have hother : ∀ u ∈ l, due now { s.setTimer t ((s.timer t).expire (now t)) with
      timerStopped := stopped } u = due now s u := due_behind ht _ _
  constructor
  · rw [h.snapshots, collected, collected, List.filter_cons_of_pos hdue, List.filter_congr hother,
      List.map_cons, List.append_assoc]
    rfl
  · exact h.faulted
  · intro u
    rw [h.timer]
    by_cases hut : u = t
    · subst hut
      simp [ht, hdue, setTimer]
    · have hsame : (s.setTimer t ((s.timer t).expire (now t))).timer u = s.timer u :=
        Function.update_of_ne hut _ _
      by_cases hu : u ∈ l
      · simp only [hother u hu, hu, hut, hsame, List.mem_cons, or_true, true_and]
      · simp only [hu, hut, hsame, List.mem_cons, or_false, false_and, if_false]

/-- The loop over the list `l`: it gets through, or it faults. The induction is on the
list. -/
theorem collect_spec (maxExpired : ℕ) (now : ℕ → Readings) {p : Option ℕ} {fuel : ℕ}
    (hpath : s.links.Path p l) (hfuel : l.length < fuel) (snaps : List ExpiredSnapshot) :
    (Fits maxExpired (due now s) snaps.length l →
      Collects now s l snaps (s.collect maxExpired now fuel p snaps)) ∧
    (¬ Fits maxExpired (due now s) snaps.length l →
      (s.collect maxExpired now fuel p snaps).2.faulted = true) := by
  have hnodup := hpath.nodup
  induction l generalizing s p fuel snaps with
  | nil =>
    rcases fuel with _ | fuel
    · exact absurd hfuel (Nat.not_lt_zero _)
    · unfold Links.Path at hpath
      subst hpath
      constructor
      · intro _
        exact ⟨(List.append_nil _).symm, rfl, fun u => by simp [collect]⟩
      · intro hnot
        exact absurd trivial hnot
  | cons t l ih =>
    rcases fuel with _ | fuel
    · exact absurd hfuel (Nat.not_lt_zero _)
    rcases hpath with ⟨rfl, hpath⟩
    rw [List.nodup_cons] at hnodup
    have hfuel' : l.length < fuel := Nat.lt_of_succ_lt_succ hfuel
    unfold collect Fits
    by_cases hroom : maxExpired ≤ snaps.length
    · rw [if_pos hroom]
      constructor
      · intro hfits
        omega
      · intro _
        rfl
    · rw [if_neg hroom, checkExpired_eq]
      have hlt : snaps.length < maxExpired := Nat.lt_of_not_le hroom
      by_cases hdue : due now s t = true
      · -- the check writes this timer, and the path goes on as before
        simp only [hdue, if_true, Bool.toNat_true]
        have hrest := ih (s := { s.setTimer t ((s.timer t).expire (now t)) with
          timerStopped := s.timerStopped || (s.timer t).once }) hpath hfuel'
          (snaps ++ [⟨t, s.onExpired t⟩]) hnodup.2
        rw [List.length_append, List.length_singleton,
          Fits.congr (due_behind hnodup.1 _ _)] at hrest
        constructor
        · intro hfits
          exact (hrest.1 hfits.2).take hnodup.1 hdue
        · intro hnot
          exact hrest.2 fun hfits => hnot ⟨hlt, hfits⟩
      · simp only [hdue, Bool.toNat_false]
        have hrest := ih hpath hfuel' snaps hnodup.2
        constructor
        · intro hfits
          exact (hrest.1 hfits.2).skip (by simpa using hdue)
        · intro hnot
          exact hrest.2 fun hfits => hnot ⟨hlt, hfits⟩

/-! ## The locked part of a pass -/

/-- The timers that the loop visits. -/
def visited (s : Timers) (l : List ℕ) : List ℕ := l.filter fun t => (s.timer t).enabled

/-- A disabled timer is not due. -/
theorem filter_due_visited (now : ℕ → Readings) (s : Timers) (l : List ℕ) :
    (visited s l).filter (due now s) = l.filter (due now s) := by
  rw [visited, List.filter_filter]
  apply List.filter_congr
  intro t _
  unfold due
  cases (s.timer t).enabled
  · rfl
  · simp

theorem removeStopped_frame (s : Timers) : s.removeStopped.snapshots = s.snapshots ∧
    s.removeStopped.passes = s.passes ∧ s.removeStopped.onExpired = s.onExpired ∧
    s.removeStopped.objects = s.objects ∧ s.removeStopped.faulted = s.faulted := by
  unfold removeStopped withLinks
  repeat' split
  all_goals exact ⟨rfl, rfl, rfl, rfl, rfl⟩

/-- What a pass that returns has done under the lock. -/
structure Passed (now : ℕ → Readings) (l : List ℕ) (s s' : Timers) : Prop where
  snapshots : s'.snapshots = Function.update s.snapshots s.passes (collected now s l)
  passes : s'.passes = s.passes + 1
  onExpired : s'.onExpired = s.onExpired
  objects : s'.objects = s.objects
  faulted : s'.faulted = s.faulted
  timer : ∀ u ∈ s.objects, s'.timer u =
    if due now s u = true then (s.timer u).expire (now u) else s.timer u

/-- A pass returns exactly if its loop gets through the timers that are enabled. -/
theorem ListInv.pass (h : ListInv l s) (maxExpired : ℕ) (now : ℕ → Readings) :
    (Fits maxExpired (due now s) 0 (visited s l) →
      Passed now l s (s.processTimers maxExpired now)) ∧
    (¬ Fits maxExpired (due now s) 0 (visited s l) →
      (s.processTimers maxExpired now).faulted = true) := by
  have ⟨hpurged, htimer⟩ := h.removeStopped
  have ⟨hsnaps, hpasses, hon, hobjects, hfaulted⟩ := removeStopped_frame s
  have hdue : due now s.removeStopped = due now s := funext fun t => due_congr (by rw [htimer])
  have hspec := collect_spec maxExpired now hpurged.holds hpurged.length_lt []
  have hexp := (collect_expires maxExpired now hpurged.holds hpurged.length_lt []).1
  rw [hdue, List.length_nil] at hspec
  rcases hcollect : s.removeStopped.collect maxExpired now s.removeStopped.fuel
    s.removeStopped.links.head [] with ⟨snaps, s₂⟩
  rw [hcollect] at hspec hexp
  have heq : s.processTimers maxExpired now = { s₂ with
      snapshots := Function.update s₂.snapshots s₂.passes snaps
      passes := s₂.passes + 1 } := by
    simp only [Timers.processTimers, hcollect]
  rw [heq]
  refine ⟨fun hfits => ?_, hspec.2⟩
  have hcollects := hspec.1 hfits
  constructor
  · show Function.update s₂.snapshots s₂.passes snaps = _
    rw [hexp.snapshots, hexp.passes, hsnaps, hpasses]
    have hall := hcollects.snapshots
    simp only [List.nil_append] at hall
    rw [hall, collected, collected, hdue, hon]
    congr 2
    exact filter_due_visited now s l
  · exact congrArg (· + 1) (hexp.passes.trans hpasses)
  · exact hexp.onExpired.trans hon
  · exact hexp.objects.trans hobjects
  · exact hcollects.faulted.trans hfaulted
  · intro u hu
    show s₂.timer u = _
    rw [hcollects.timer u, hdue, htimer]
    by_cases hd : due now s u = true
    · -- a timer that is due is enabled, and so the list has it
      have hen : (s.timer u).enabled = true := (Bool.and_eq_true_iff.mp hd).1
      have hmem : u ∈ l.filter fun t => (s.timer t).enabled :=
        List.mem_filter.mpr ⟨h.enabled u hu hen, hen⟩
      rw [if_pos ⟨hmem, hd⟩, if_pos hd]
    · rw [if_neg (fun h => hd h.2), if_neg hd]

/-! ## The calls of a pass -/

/-- The subscribers that are left to call. -/
def pendingCalls (snaps : List ExpiredSnapshot) : List (ℕ × ℕ) :=
  snaps.flatMap fun x => x.delegates.map fun d => (x.timer, d)

/-- What the step calls in the pass `i`. -/
def called (i : ℕ) (s : Timers) : TimerLabel → List (ℕ × ℕ)
  | .advance j => if j = i then (s.nextCallback i).toList else []
  | _ => []

/-- What a run calls in the pass `i`. -/
def calls (maxExpired i : ℕ) (s : Timers) (ls : List TimerLabel) : List (ℕ × ℕ) :=
  (ls.foldl (fun p L => (update maxExpired L p.1, p.2 ++ called i p.1 L)) (s, [])).2

theorem foldl_state {i : ℕ} {ls : List TimerLabel} (hrun : (timerLts maxExpired).Run s ls s') :
    (ls.foldl (fun p L => (update maxExpired L p.1, p.2 ++ called i p.1 L)) (s, [])).1 = s' := by
  induction hrun with
  | nil => rfl
  | concat _ _ ih =>
    rw [List.foldl_append, List.foldl_cons, List.foldl_nil, ih]
    rfl

theorem calls_concat {i : ℕ} {ls : List TimerLabel} (hrun : (timerLts maxExpired).Run s ls s')
    (L : TimerLabel) :
    calls maxExpired i s (ls ++ [L]) = calls maxExpired i s ls ++ called i s' L := by
  rw [calls, List.foldl_append, List.foldl_cons, List.foldl_nil, foldl_state hrun]
  rfl

/-- A step of the pass calls the next subscriber, or none at the end of a snapshot. -/
theorem pendingCalls_advance (i : ℕ) (s : Timers) :
    pendingCalls (s.snapshots i) =
      (s.nextCallback i).toList ++ pendingCalls ((s.advance i).snapshots i) := by
  unfold nextCallback advance
  simp only [Function.update_self]
  rcases s.snapshots i with _ | ⟨⟨t, _ | ⟨d, ds⟩⟩, rest⟩
  · rfl
  · rfl
  · rfl

/-- Whatever comes between the steps of a pass, it calls what it had left to call. -/
theorem called_append (maxExpired : ℕ) {i : ℕ} {L : TimerLabel} (hlist : ListInv l s)
    (hg : guard L s) (hi : i < s.passes) :
    called i s L ++ pendingCalls ((update maxExpired L s).snapshots i) =
      pendingCalls (s.snapshots i) ∧ i < (update maxExpired L s).passes := by
  by_cases hpass : ∃ now, L = .processTimers now
  · rcases hpass with ⟨now, rfl⟩
    rcases (hlist.processTimers maxExpired now).2.2.2 with ⟨hpasses, snaps, hsnaps, -⟩
    simp only [update, called]
    rw [hsnaps, hpasses, Function.update_of_ne (by omega)]
    exact ⟨rfl, by omega⟩
  by_cases hadvance : ∃ j, L = .advance j
  · rcases hadvance with ⟨j, rfl⟩
    refine ⟨?_, hi⟩
    simp only [called, update]
    by_cases hji : j = i
    · subst hji
      rw [if_pos rfl, ← pendingCalls_advance]
    · rw [if_neg hji]
      simp [advance, Function.update_of_ne (Ne.symm hji)]
  · rcases operation_frame (t := 0) maxExpired hg (fun now he => hpass ⟨now, he⟩)
      (fun j he => hadvance ⟨j, he⟩) with ⟨hsnaps, hpasses, -⟩
    have hnone : called i s L = [] := by
      cases L with
      | advance j => exact absurd ⟨j, rfl⟩ hadvance
      | _ => rfl
    rw [hnone, hsnaps, hpasses]
    exact ⟨rfl, hi⟩

theorem calls_pending {i : ℕ} {ls : List TimerLabel} (hr : (timerLts maxExpired).Reachable s)
    (hrun : (timerLts maxExpired).Run s ls s') (hi : i < s.passes) :
    calls maxExpired i s ls ++ pendingCalls (s'.snapshots i) = pendingCalls (s.snapshots i) ∧
      i < s'.passes := by
  induction hrun with
  | nil => exact ⟨rfl, hi⟩
  | concat hrun hg ih =>
    rcases list_of_reachable (hr.steps hrun.steps) with ⟨l, hlist⟩
    have ⟨hstep, hlt⟩ := called_append maxExpired hlist hg ih.2
    rw [calls_concat hrun, List.append_assoc]
    exact ⟨by rw [← ih.1, ← hstep]; rfl, hlt⟩

/-- The steps that a pass has left: its calls, and the release of each snapshot. -/
def stepsLeft : List ExpiredSnapshot → ℕ
  | [] => 0
  | x :: snaps => x.delegates.length + 1 + stepsLeft snaps

theorem stepsLeft_advance {i : ℕ} (h : s.snapshots i ≠ []) :
    stepsLeft ((s.advance i).snapshots i) + 1 = stepsLeft (s.snapshots i) := by
  unfold advance
  simp only [Function.update_self]
  rcases hsnaps : s.snapshots i with _ | ⟨⟨t, _ | ⟨d, ds⟩⟩, rest⟩
  · exact absurd hsnaps h
  · simp [stepsLeft, Nat.add_comm]
  · simp [stepsLeft]
    omega

theorem stepsLeft_pos {snaps : List ExpiredSnapshot} (h : 0 < stepsLeft snaps) : snaps ≠ [] := by
  rintro rfl
  exact absurd h (Nat.lt_irrefl 0)

/-- Left alone, a pass takes the steps that it has left. -/
theorem pass_advances (maxExpired : ℕ) {i : ℕ} (hf : s.faulted = false) (hi : i < s.passes)
    (k : ℕ) (hk : k ≤ stepsLeft (s.snapshots i)) :
    ∃ s', (timerLts maxExpired).Run s (List.replicate k (.advance i)) s' ∧
      s'.faulted = false ∧ i < s'.passes ∧
      stepsLeft (s'.snapshots i) + k = stepsLeft (s.snapshots i) := by
  induction k with
  | zero => exact ⟨s, .nil, hf, hi, rfl⟩
  | succ k ih =>
    rcases ih (by omega) with ⟨s', hrun, hf', hi', hleft⟩
    have hne : s'.snapshots i ≠ [] := stepsLeft_pos (by omega)
    refine ⟨s'.advance i, ?_, hf', hi', ?_⟩
    · rw [List.replicate_succ']
      exact hrun.concat ⟨hf', hi', hne⟩
    · have hstep := stepsLeft_advance hne
      omega

theorem pass_ends (maxExpired : ℕ) {i : ℕ} (hf : s.faulted = false) (hi : i < s.passes) :
    ∃ n s', (timerLts maxExpired).Run s (List.replicate n (.advance i)) s' ∧
      s'.snapshots i = [] := by
  rcases pass_advances maxExpired hf hi _ (Nat.le_refl _) with ⟨s', hrun, -, -, hleft⟩
  refine ⟨_, s', hrun, ?_⟩
  by_contra hne
  have hstep := stepsLeft_advance hne
  omega

/-! ## Whole passes -/

/-- The pass returns, comes to its end, and has then called every subscriber of every
timer that was due, once and in order, whatever came between its calls. -/
structure Serves (maxExpired : ℕ) (now : ℕ → Readings) (s : Timers) (l : List ℕ) : Prop where
  returns : (s.processTimers maxExpired now).faulted = false
  ends : ∃ n s', (timerLts maxExpired).Run (s.processTimers maxExpired now)
    (List.replicate n (.advance s.passes)) s' ∧ s'.snapshots s.passes = []
  calls : ∀ ls s', (timerLts maxExpired).Run (s.processTimers maxExpired now) ls s' →
    s'.snapshots s.passes = [] →
      calls maxExpired s.passes (s.processTimers maxExpired now) ls =
        (l.filter (due now s)).flatMap fun t => (s.onExpired t).map fun d => (t, d)

theorem reachable_pass (hr : (timerLts maxExpired).Reachable s) (hf : s.faulted = false)
    (now : ℕ → Readings) : (timerLts maxExpired).Reachable (s.processTimers maxExpired now) := by
  have hg : (timerLts maxExpired).guard (.processTimers now) s := hf
  exact hr.next hg trivial

theorem Passed.serves (hr : (timerLts maxExpired).Reachable s) (hf : s.faulted = false)
    (h : Passed now l s (s.processTimers maxExpired now)) : Serves maxExpired now s l := by
  have hlt : s.passes < (s.processTimers maxExpired now).passes := by
    rw [h.passes]
    exact Nat.lt_succ_self _
  have hsnaps : (s.processTimers maxExpired now).snapshots s.passes = collected now s l := by
    rw [h.snapshots, Function.update_self]
  constructor
  · rw [h.faulted, hf]
  · exact pass_ends maxExpired (by rw [h.faulted, hf]) hlt
  · intro ls s' hrun hend
    have hcalls := (calls_pending (reachable_pass hr hf now) hrun hlt).1
    rw [hend, hsnaps] at hcalls
    rw [← List.append_nil (Timers.calls _ _ _ _)]
    refine hcalls.trans ?_
    simp only [pendingCalls, collected, List.flatMap_map]

/-- A pass in which no more than `MAX_TIMER_EXPIRED` timers are due serves all of them,
except that it faults when exactly so many are due and the last of the enabled timers
in the list is not one of them. -/
theorem processTimers_serves_iff (hr : (timerLts maxExpired).Reachable s)
    (hf : s.faulted = false) (hl : s.links.Holds l) (now : ℕ → Readings) :
    ((l.filter (due now s)).length ≤ maxExpired → Serves maxExpired now s l) ↔
      ((l.filter (due now s)).length = maxExpired →
        ∀ t ∈ (visited s l).getLast?, due now s t = true) := by
  rcases list_of_reachable hr with ⟨l', hlist⟩
  have hsame : l' = l := Links.Path.unique hlist.holds hl
  subst hsame
  have ⟨hgood, hbad⟩ := hlist.pass maxExpired now
  have hfits : (l'.filter (due now s)).length ≤ maxExpired →
      (Fits maxExpired (due now s) 0 (visited s l') ↔
        ((l'.filter (due now s)).length = maxExpired →
          ∀ t ∈ (visited s l').getLast?, due now s t = true)) := by
    intro hle
    rw [fits_iff (by rw [filter_due_visited]; omega), filter_due_visited, Nat.zero_add]
  constructor
  · intro hserves hfull
    refine (hfits (Nat.le_of_eq hfull)).mp ?_ hfull
    by_contra hnot
    have hret := (hserves (Nat.le_of_eq hfull)).returns
    rw [hbad hnot] at hret
    cases hret
  · intro hlast hle
    exact (hgood ((hfits hle).mpr hlast)).serves hr hf

theorem processTimers_serves_iff_run :
    ∃ s, (timerLts 16).Reachable s ∧ ∃ l, s.links.Holds l ∧
      Serves 16 (fun _ => ⟨5, 5, 5⟩) s l := by
  obtain ⟨s, hr, hp⟩ := (timerLts 16).execWhen_reachable Lts.always rfl
    [.construct 0, .construct 1, .connect 0 10, .start 0 5 false 0, .start 1 9 false 0]
    (fun s => s.faulted = false ∧ s.objects.length < 16) (by decide +kernel)
  obtain ⟨hf, hlen⟩ : _ ∧ _ := of_decide_eq_true hp
  obtain ⟨l, hlist⟩ := list_of_reachable hr
  have hlt := hlist.length_lt
  have hcount : (l.filter (due (fun _ => ⟨5, 5, 5⟩) s)).length ≤ l.length :=
    List.length_filter_le _ l
  unfold fuel at hlt
  refine ⟨s, hr, l, hlist.holds, ?_⟩
  -- two timers cannot fill the snapshots of a pass
  refine (processTimers_serves_iff hr hf hlist.holds fun _ => ⟨5, 5, 5⟩).mpr (fun hfull => ?_) ?_
  · omega
  · omega

/-- One timer that expires later, and 16 that were started after it. -/
def crowdedRun : List TimerLabel :=
  (List.range 17).map .construct ++ [.start 0 9 false 0] ++
    (List.range 16).map fun t => .start (t + 1) 5 false 0

/-- Sixteen timers are due and the timer behind them is not: the pass faults. -/
theorem processTimers_faults_when_full :
    ∃ s l, (timerLts 16).Reachable s ∧ s.faulted = false ∧ s.links.Holds l ∧
      (l.filter (due (fun _ => ⟨5, 5, 5⟩) s)).length = 16 ∧
      (s.processTimers 16 fun _ => ⟨5, 5, 5⟩).faulted = true ∧
      ¬ Serves 16 (fun _ => ⟨5, 5, 5⟩) s l := by
  obtain ⟨s, hr, hp⟩ := (timerLts 16).execWhen_reachable Lts.always rfl crowdedRun
    (fun s => s.faulted = false ∧ s.fuel = 18 ∧
      ((s.links.walk 18 s.links.head).map fun l =>
        (l.filter (due (fun _ => ⟨5, 5, 5⟩) s)).length) = some 16 ∧
      (s.processTimers 16 fun _ => ⟨5, 5, 5⟩).faulted = true) (by decide +kernel)
  obtain ⟨hf, hfuel, hcount, hfaulted⟩ : _ ∧ _ ∧ _ ∧ _ := of_decide_eq_true hp
  obtain ⟨l, hlist⟩ := list_of_reachable hr
  have hlt := hlist.length_lt
  rw [hfuel] at hlt
  rw [Links.Path.walk hlist.holds hlt] at hcount
  refine ⟨s, l, hr, hf, hlist.holds, Option.some.inj hcount, hfaulted, fun hserves => ?_⟩
  have hret := hserves.returns
  rw [hfaulted] at hret
  cases hret

end Timers

end AsyncSqlite
