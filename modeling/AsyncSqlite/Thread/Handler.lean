import AsyncSqlite.Thread.Accounting

/-!
# AsyncSqlite.Thread.Handler — who is inside `Invoke`

A worker that is inside `Invoke` runs a message that was recorded in `invoked`
when it entered, no two workers run the same message, and the live worker runs
the one that was recorded last.
-/

namespace AsyncSqlite

namespace ThreadState

variable {cfg : Config} {l : ThreadLabel} {s s' : ThreadState}

structure HandlerInv (s : ThreadState) : Prop where
  mem : ∀ w m, (s.worker w).pc = .invoking m → m ∈ s.invoked
  unique : ∀ v w m n, (s.worker v).pc = .invoking m → (s.worker w).pc = .invoking n →
    m.id = n.id → v = w
  latest : ∀ w m, s.Live w → (s.worker w).pc = .invoking m → ∃ front, s.invoked = front ++ [m]

/-- A worker that begins to invoke a message held it in its hand. -/
theorem hand_of_switch (hl : Life s) {w : ℕ} {x : ThreadMsg} {m : DelegateMsg}
    (hw : (s.worker w).pc = .got x) (hx : x.target = some m) : s.hand = [m] := by
  rw [hand_of_thread (hl.workers.live w (hl.live_of_got hw)), hw]
  simp [inHand, hx]

theorem HandlerInv.step (h : Effect cfg l s s') (hl : Life s) (hi : HistoryInv s)
    (hh : HandlerInv s) : HandlerInv s' := by
  rcases invoked_of_step h with hsame | ⟨w, x, m, hlab, hw, hx, rfl⟩
  · -- no handler is entered, so whoever is inside one was inside it before
    have hback : ∀ w m, (s'.worker w).pc = .invoking m → (s.worker w).pc = .invoking m := by
      intro w m hw'
      rcases invoking_of_step h hw' with hw | ⟨x, -, -, -, rfl⟩
      · exact hw
      · have hlen := congrArg List.length hsame
        simp [invoke] at hlen
    constructor
    · intro w m hw'
      rw [hsame]
      exact hh.mem w m (hback w m hw')
    · intro v w m n hv' hw'
      exact hh.unique v w m n (hback v m hv') (hback w n hw')
    · intro w m hlive hw'
      have hw := hback w m hw'
      rw [hsame]
      refine hh.latest w m ⟨by simp [hw], by simp [hw], ?_⟩ hw
      by_contra hse
      have hstart : (s.worker w).pc ≠ .notStarted := by simp [hw]
      have hse' := selfExit_of_step h hstart hl.workers (by simpa using hse)
      rw [hlive.2.2] at hse'
      cases hse'
  · -- worker `w` enters the handler of `m`, which nobody entered before
    have hfresh : m.id ∉ s.invoked.map (·.id) := by
      refine hi.not_invoked_of_hand ?_
      rw [hand_of_switch hl hw hx]
      exact List.mem_singleton_self m
    have hcases : ∀ v n, ((s.invoke w m).worker v).pc = .invoking n →
        v = w ∧ n = m ∨ v ≠ w ∧ (s.worker v).pc = .invoking n := by
      intro v n hv
      rw [invoke_pc] at hv
      by_cases heq : v = w
      · rw [if_pos heq] at hv
        exact Or.inl ⟨heq, by simpa using hv.symm⟩
      · rw [if_neg heq] at hv
        exact Or.inr ⟨heq, hv⟩
    have hold : ∀ v n, (s.worker v).pc = .invoking n → n.id ≠ m.id := by
      intro v n hv heq
      exact hfresh (heq ▸ List.mem_map_of_mem (hh.mem v n hv))
    constructor
    · intro v n hv
      show n ∈ s.invoked ++ [m]
      rcases hcases v n hv with ⟨-, rfl⟩ | ⟨-, hv⟩
      · simp
      · exact List.mem_append_left _ (hh.mem v n hv)
    · intro u v a b hu hv hab
      rcases hcases u a hu with ⟨hu₁, hu₂⟩ | ⟨-, hu'⟩
      · rcases hcases v b hv with ⟨hv₁, -⟩ | ⟨-, hv'⟩
        · exact hu₁.trans hv₁.symm
        · exact absurd (hab.symm.trans (by rw [hu₂])) (hold v b hv')
      · rcases hcases v b hv with ⟨-, hv₂⟩ | ⟨-, hv'⟩
        · exact absurd (hab.trans (by rw [hv₂])) (hold u a hu')
        · exact hh.unique u v a b hu' hv' hab
    · intro v n hlive hv
      rcases hcases v n hv with ⟨-, rfl⟩ | ⟨hne, hv⟩
      · exact ⟨s.invoked, rfl⟩
      · -- `w` is the live worker, so a handler of another one runs detached
        have hse : (s.worker v).selfExit = false :=
          (setPc_selfExit s w v (.invoking m)).symm.trans hlive.2.2
        have hv' : s.Live v := ⟨by simp [hv], by simp [hv], hse⟩
        exact absurd (hl.workers.live_unique hv' (hl.live_of_got hw)) hne

theorem handler_of_reachable {ok : ThreadLabel → ThreadState → Prop}
    (h : (threadLts cfg).ReachableWhen ok s) : HandlerInv s := by
  refine h.induct ?_ ?_
  · rintro s rfl
    constructor <;> simp [initial]
  · intro l s hr hg _ hh
    exact hh.step (step_effect cfg hg) (life_of_reachable hr) (history_of_reachable hr)

/-! ## Frame facts for the code around the thread -/

/-- A handler is left only by its own return or exception. -/
theorem invoking_kept (h : Effect cfg l s s') (hl : LifeInv s) {w : ℕ} {m : DelegateMsg}
    (hw : (s.worker w).pc = .invoking m) :
    (s'.worker w).pc = .invoking m ∨ l = .invokeReturn w m ∨ l = .invokeThrow w m := by
  have hmove := pc_of_step h w
  generalize (s'.worker w).pc = pc at hmove ⊢
  cases hmove with
  | keep hpc => exact Or.inl (hpc.symm.trans hw)
  | move hm => cases hm <;> simp_all
  | spawn heq =>
    -- a worker that is spawned was never started
    rw [heq, hl.fresh s.spawned le_rfl] at hw
    cases hw
  | notify hpc | popHigh hpc | popNormal hpc | invoke _ hpc =>
    rw [hpc] at hw
    cases hw

/-- Only `CreateThread` brings a worker to life. -/
theorem live_of_step (h : Effect cfg l s s') {w : ℕ} (hlive : s'.Live w) :
    s.Live w ∨ s' = s.spawn := by
  have hmove : ∀ v pc, (s.worker v).pc ≠ .notStarted → (s.worker v).pc ≠ .finished →
      (s.setPc v pc).Live w → s.Live w := by
    intro v pc hn hf ⟨hn', hf', hse⟩
    rw [setPc_pc] at hn' hf'
    rw [setPc_selfExit] at hse
    by_cases heq : w = v
    · subst heq
      exact ⟨hn, hf, hse⟩
    · rw [if_neg heq] at hn' hf'
      exact ⟨hn', hf', hse⟩
  have hnotify : ∀ {f}, f = notifyOne s.worker → s'.worker = f → s.Live w := by
    rintro f rfl hw
    rcases hlive with ⟨hn, hf, hse⟩
    rw [hw] at hn hf hse
    rw [Ne, notifyOne_pc_eq (by simp) (by simp)] at hn hf
    rw [notifyOne_selfExit] at hse
    exact ⟨hn, hf, hse⟩
  cases h with
  | spawn => exact Or.inr rfl
  | stutter | beginCreate | clearExit | started | beginExit | join | unjoinable | dispatch
  | reset => exact Or.inl hlive
  -- a worker that detaches itself is live no more
  | detach h =>
    left
    rcases hlive with ⟨hn, hf, hse⟩
    rw [detach_pc] at hn hf
    refine ⟨hn, hf, ?_⟩
    by_contra hse'
    rw [detach_selfExit s h w (by simpa using hse')] at hse
    cases hse
  | pushExit | accept => exact Or.inl (hnotify rfl rfl)
  | move v pc hm =>
    left
    refine hmove v pc ?_ ?_ hlive <;> cases hm <;> simp_all
  | popHigh v x rest hv | popNormal v x rest hv =>
    exact Or.inl (hmove v (.got x) (by simp [hv]) (by simp [hv]) hlive)
  | invoke v x d hl hv =>
    exact Or.inl (hmove v (.invoking d) (by simp [hv]) (by simp [hv]) hlive)

/-- A worker exits itself in its own `ExitThread`. -/
theorem selfExit_begins (h : Effect cfg l s s') {w : ℕ} (hse : (s'.worker w).selfExit = true) :
    (s.worker w).selfExit = true ∨ s.control = .exitJoin (.worker w) := by
  cases h with
  | stutter | beginCreate | clearExit | started | beginExit | join | unjoinable | dispatch
  | reset => exact Or.inl hse
  | spawn =>
    left
    by_cases heq : w = s.spawned
    · subst heq
      simp [ThreadState.spawn, setWorker] at hse
    · simpa [ThreadState.spawn, setWorker, heq] using hse
  | detach h hcon =>
    by_cases heq : w = h
    · subst heq
      exact Or.inr hcon
    · left
      simpa [ThreadState.detach, setWorker, heq] using hse
  | pushExit | accept => exact Or.inl ((notifyOne_selfExit s.worker w).symm.trans hse)
  | move v pc => exact Or.inl ((setPc_selfExit s v w pc).symm.trans hse)
  | popHigh v x | popNormal v x => exact Or.inl ((setPc_selfExit s v w (.got x)).symm.trans hse)
  | invoke v x d => exact Or.inl ((setPc_selfExit s v w (.invoking d)).symm.trans hse)

/-- A worker is spawned by that step of `CreateThread` only. -/
theorem spawned_of_update (cfg : Config) (l : ThreadLabel) (s : ThreadState) :
    (update cfg l s).spawned = s.spawned ∨ l = .createSpawn := by
  have hpush : ∀ m, (s.dispatchPush m).spawned = s.spawned := by
    intro m
    unfold dispatchPush
    split <;> rfl
  cases l with
  | createSpawn => exact Or.inr rfl
  | createClear | createStart | exitPush | exitReset | dispatchDelegate | dispatchHasValue
  | processStart | processLoop | processWake | invokeReturn | invokeThrow => exact Or.inl rfl
  | createThread | exitThread t =>
    left
    simp only [update]
    split <;> rfl
  | exitJoin t =>
    left
    simp only [update, exitJoin]
    split
    · split <;> rfl
    · rfl
  | dispatchLocked m =>
    left
    simp only [update, dispatchLocked]
    split
    · cases cfg.fullPolicy with
      | drop | fault => rfl
      | timeout =>
        dsimp only
        split
        · exact hpush m
        · rfl
    · exact hpush m
  | dispatchWake m | dispatchTimeout m =>
    left
    simp only [update]
    split
    · exact hpush m
    · rfl
  | processTake w =>
    left
    simp only [update, processTake]
    split <;> rfl
  | processSwitch w m =>
    left
    simp only [update, processSwitch]
    split <;> rfl

end ThreadState

/-- The message of a `DispatchDelegate`. -/
def DispatchPc.message : DispatchPc → Option DelegateMsg
  | .idle => none
  | .entered m | .checked m | .waiting m | .returned m _ | .threw m | .faulted m => some m

/-- The call is inside `DispatchDelegate`. -/
def DispatchPc.inFlight : DispatchPc → Bool
  | .entered _ | .checked _ | .waiting _ => true
  | _ => false

namespace ThreadState

variable {cfg : Config} {l : ThreadLabel} {s s' : ThreadState}

/-- A `DispatchDelegate` begins with the message of its label, and keeps it. -/
theorem dispatch_of_step (h : Effect cfg l s s') (i : ℕ) :
    s'.dispatch i = s.dispatch i ∨
      (∃ m, l = .dispatchDelegate m ∧ i = m.id ∧ s.dispatch i = .idle ∧
        (s'.dispatch i).message = some m) ∨
      ((s.dispatch i).inFlight = true ∧ (s'.dispatch i).message = (s.dispatch i).message) := by
  cases h with
  | dispatch m pc hm =>
    by_cases heq : i = m.id
    · subst heq
      right
      cases hm with
      | rejectEarly hl hidle | enter hl hidle =>
        exact Or.inl ⟨m, hl, rfl, hidle, by simp [setDispatch, DispatchPc.message]⟩
      | throw _ hpc | check hpc | fault hpc | wait hpc =>
        exact Or.inr ⟨by simp [hpc, DispatchPc.inFlight],
          by simp [setDispatch, hpc, DispatchPc.message]⟩
      | reject hpc =>
        rcases hpc with hpc | hpc
        · exact Or.inr ⟨by simp [hpc, DispatchPc.inFlight],
            by simp [setDispatch, hpc, DispatchPc.message]⟩
        · exact Or.inr ⟨by simp [hpc, DispatchPc.inFlight],
            by simp [setDispatch, hpc, DispatchPc.message]⟩
    · exact Or.inl (by simp [setDispatch, heq])
  | accept m hm =>
    by_cases heq : i = m.id
    · subst heq
      right
      right
      rcases hm with hpc | hpc
      · exact ⟨by simp [hpc, DispatchPc.inFlight],
          by simp [ThreadState.accept, setDispatch, hpc, DispatchPc.message]⟩
      · exact ⟨by simp [hpc, DispatchPc.inFlight],
          by simp [ThreadState.accept, setDispatch, hpc, DispatchPc.message]⟩
    · exact Or.inl (by simp [ThreadState.accept, setDispatch, push, heq])
  | _ => exact Or.inl rfl

/-- A `DispatchDelegate` that has ended stays as it is. -/
theorem dispatch_final (h : Effect cfg l s s') {i : ℕ} (hidle : s.dispatch i ≠ .idle)
    (hfl : (s.dispatch i).inFlight = false) : s'.dispatch i = s.dispatch i := by
  rcases dispatch_of_step h i with hsame | ⟨m, -, -, hd, -⟩ | ⟨hfl', -⟩
  · exact hsame
  · exact absurd hd hidle
  · rw [hfl] at hfl'
    cases hfl'

/-- A producer's result is final. -/
theorem returned_step (h : Effect cfg l s s') {i : ℕ} {m : DelegateMsg} {ok : Bool}
    (hret : s.dispatch i = .returned m ok) : s'.dispatch i = .returned m ok := by
  have hsame := dispatch_final h (i := i) (by simp [hret]) (by simp [hret, DispatchPc.inFlight])
  rw [hsame, hret]

/-- So is its exception. -/
theorem threw_step (h : Effect cfg l s s') {i : ℕ} {m : DelegateMsg}
    (hthrew : s.dispatch i = .threw m) : s'.dispatch i = .threw m := by
  have hsame := dispatch_final h (i := i) (by simp [hthrew]) (by simp [hthrew, DispatchPc.inFlight])
  rw [hsame, hthrew]

/-- A step moves at most one call of `DispatchDelegate`. -/
theorem dispatch_frame (h : Effect cfg l s s') :
    ∃ x, ∀ i, i ≠ x → s'.dispatch i = s.dispatch i := by
  cases h with
  | dispatch m pc => exact ⟨m.id, fun i hi => by simp [setDispatch, hi]⟩
  | accept m => exact ⟨m.id, fun i hi => by simp [ThreadState.accept, setDispatch, push, hi]⟩
  | _ => exact ⟨0, fun _ _ => rfl⟩

end ThreadState

end AsyncSqlite
