import AsyncSqlite.Thread.Drain
import AsyncSqlite.Sqlite.Programs

/-!
# AsyncSqlite.Sqlite.Held — how long a message exists

A message exists while it is queued or a worker holds it (`Holds`). It comes
into being in its `DispatchDelegate` only (`holds_of_step`), and behind an exit
at most the one that a detached worker runs is left (`holds_of_stopped`).

The promise of a future call is shared by its message, so an outcome that is
missing when the message is gone stays missing (`result_kept`).
-/

namespace AsyncSqlite

universe u

namespace ThreadState

variable {cfg : Config} {l : ThreadLabel} {s s' : ThreadState}

/-- The message with identity `i` is queued, or held by a worker. -/
def Holds (s : ThreadState) (i : ℕ) : Prop :=
  (∃ p, ∃ m ∈ s.queued p, m.id = i) ∨ ∃ w m, Sys.heldBy (s.worker w).pc = some m ∧ m.id = i

theorem WorkerMove.heldBy {w : ℕ} {pc : WorkerPc} (h : WorkerMove l s w pc) :
    Sys.heldBy pc = none := by
  cases h <;> rfl

/-- The message whose invoker is run is the one in the queue entry. -/
theorem data_of_target {x : ThreadMsg} {m : DelegateMsg} (h : x.target = some m) :
    x.data = some m := by
  unfold ThreadMsg.target at h
  split at h
  · rename_i hdata
    split at h
    · rw [hdata]
      exact h
    · cases h
  · cases h

/-- A worker takes its message from a queue. -/
theorem heldBy_of_step (h : Effect cfg l s s') {w : ℕ} {m : DelegateMsg}
    (hw : Sys.heldBy (s'.worker w).pc = some m) :
    Sys.heldBy (s.worker w).pc = some m ∨ ∃ p, m ∈ s.queued p := by
  have hmove := pc_of_step h w
  generalize (s'.worker w).pc = pc at hmove hw
  cases hmove with
  | keep hpc =>
    left
    rw [hpc]
    exact hw
  | notify | spawn => cases hw
  | move hm =>
    rw [hm.heldBy] at hw
    cases hw
  | popHigh _ hq => exact Or.inr ⟨.high, List.mem_filterMap.mpr ⟨_, by simp [hq], hw⟩⟩
  | popNormal _ _ hq => exact Or.inr ⟨.normal, List.mem_filterMap.mpr ⟨_, by simp [hq], hw⟩⟩
  | invoke _ hpc hx =>
    left
    rw [hpc]
    exact (data_of_target hx).trans hw

/-- Only a `DispatchDelegate` that accepts its message adds to the queues. -/
theorem queued_of_step (h : Effect cfg l s s') {p : Priority} {m : DelegateMsg}
    (hm : m ∈ s'.queued p) :
    m ∈ s.queued p ∨ (s.dispatch m.id).inFlight = true ∧ s'.dispatch m.id = .returned m true := by
  have hpop : ∀ (q rest : List ThreadMsg) x, q = x :: rest →
      m ∈ rest.filterMap (·.data) → m ∈ q.filterMap (·.data) := by
    rintro q rest x rfl hm
    exact ((List.sublist_cons_self x rest).filterMap _).subset hm
  cases h with
  | stutter | beginCreate | clearExit | started | beginExit | join | unjoinable | dispatch
  | spawn | detach | move | invoke => exact Or.inl hm
  | pushExit t =>
    left
    rw [← queued_push_exit s p]
    exact hm
  | accept x hx =>
    have hm' : m ∈ s.queued p ++ ofClass DelegateMsg.priority p [x] := by
      rw [← queued_push_delegate s x p]
      exact hm
    rcases List.mem_append.mp hm' with hm' | hm'
    · exact Or.inl hm'
    · -- the message that is accepted was in flight
      right
      have hmx : m = x := List.mem_singleton.mp ((ofClass_sublist _ p [x]).subset hm')
      subst hmx
      refine ⟨?_, by simp [ThreadState.accept, setDispatch]⟩
      rcases hx with hx | hx <;> rw [hx] <;> rfl
  | popHigh v x rest hv hq =>
    cases p with
    | high => exact Or.inl (hpop _ rest x hq hm)
    | normal => exact Or.inl hm
  | popNormal v x rest hv _ hq =>
    cases p with
    | high => exact Or.inl hm
    | normal => exact Or.inl (hpop _ rest x hq hm)
  | reset t => cases p <;> cases hm

/-- A message that exists behind a step existed before it, or is that of a
`DispatchDelegate` in flight, which accepts it. -/
theorem holds_of_step (h : Effect cfg l s s') {i : ℕ} (hi : s'.Holds i) :
    s.Holds i ∨ (s.dispatch i).inFlight = true ∧ ∃ m, s'.dispatch i = .returned m true := by
  rcases hi with ⟨p, m, hm, rfl⟩ | ⟨w, m, hw, hid⟩
  · rcases queued_of_step h hm with hold | ⟨hflight, hacc⟩
    · exact Or.inl (Or.inl ⟨p, m, hold, rfl⟩)
    · exact Or.inr ⟨hflight, m, hacc⟩
  · rcases heldBy_of_step h hw with hold | ⟨p, hm⟩
    · exact Or.inl (Or.inr ⟨w, m, hold, hid⟩)
    · exact Or.inl (Or.inl ⟨p, m, hm, hid⟩)

/-- A message that exists was accepted. -/
theorem accepted_of_holds {ok : ThreadLabel → ThreadState → Prop}
    (h : (threadLts cfg).ReachableWhen ok s) {i : ℕ} (hi : s.Holds i) :
    ∃ m, s.dispatch i = .returned m true := by
  have hall : s.Holds i → ∃ m, s.dispatch i = .returned m true := by
    refine h.induct (P := fun s => s.Holds i → ∃ m, s.dispatch i = .returned m true) ?_ ?_
    · rintro s rfl (⟨p, m, hm, -⟩ | ⟨w, m, hw, -⟩)
      · cases p <;> cases hm
      · cases hw
    · intro l s _ hg _ ih hi
      have heff := step_effect cfg hg
      rcases holds_of_step heff hi with hold | ⟨-, hacc⟩
      · rcases ih hold with ⟨m, hm⟩
        exact ⟨m, returned_step heff hm⟩
      · exact hacc
  exact hall hi

/-- Behind an exit only a worker that exited itself holds a message: the one it
was running. -/
theorem holds_of_stopped (hl : Life s) (hq : QueueInv s) (hth : s.thread = none)
    (hcon : s.control = .idle) {i : ℕ} (hi : s.Holds i) :
    ∃ w m, (s.worker w).selfExit = true ∧ (s.worker w).pc = .invoking m ∧ m.id = i := by
  rcases hi with ⟨p, m, hm, -⟩ | ⟨w, m, hw, hid⟩
  · rw [queued_of_empty (hq.parked (Or.inl hcon) hth)] at hm
    cases hm
  · have hnone : ¬ s.Live w := by
      intro hlive
      rw [hl.workers.live w hlive] at hth
      cases hth
    cases hpc : (s.worker w).pc with
    | got x => exact absurd (hl.live_of_got hpc) hnone
    | invoking n =>
      have hn : n = m := by simpa [hpc, Sys.heldBy] using hw
      refine ⟨w, n, ?_, hpc, by rw [hn, hid]⟩
      by_contra hse
      exact hnone ⟨by simp [hpc], by simp [hpc], by simpa using hse⟩
    | _ => simp [hpc, Sys.heldBy] at hw

/-- `m_thread.has_value()` throws only for the message of its label. -/
theorem threw_of_step (h : Effect cfg l s s') {i : ℕ} {m : DelegateMsg}
    (hd : s'.dispatch i = .threw m) :
    s.dispatch i = .threw m ∨ l = .dispatchHasValue m ∧ m.id = i ∧ s.thread = none := by
  cases h with
  | dispatch x pc hm =>
    by_cases heq : i = x.id
    · subst heq
      have hpc : pc = .threw m := by simpa [setDispatch] using hd
      subst hpc
      cases hm with
      | throw hlab _ hth => exact Or.inr ⟨hlab, rfl, hth⟩
    · left
      simpa [setDispatch, heq] using hd
  | accept x hx =>
    left
    by_cases heq : i = x.id
    · subst heq
      simp [ThreadState.accept, setDispatch] at hd
    · simpa [ThreadState.accept, setDispatch, push, heq] using hd
  | _ => exact Or.inl hd

/-- Without a queue limit nobody waits for room and nobody faults. -/
theorem unlimited_step (hmax : cfg.maxQueueSize = 0) (h : Effect cfg l s s')
    (hi : ∀ i m, s.dispatch i ≠ .waiting m ∧ s.dispatch i ≠ .faulted m) :
    ∀ i m, s'.dispatch i ≠ .waiting m ∧ s'.dispatch i ≠ .faulted m := by
  have hroom : ¬ full cfg s := by
    unfold full
    omega
  intro i m
  cases h with
  | dispatch x pc hm =>
    by_cases heq : i = x.id
    · subst heq
      have hself : (s.setDispatch x.id pc).dispatch x.id = pc := by simp [setDispatch]
      rw [hself]
      cases hm with
      | fault _ hfull => exact absurd hfull hroom
      | wait _ hfull => exact absurd hfull hroom
      | _ => simp
    · have hother : (s.setDispatch x.id pc).dispatch i = s.dispatch i := by simp [setDispatch, heq]
      rw [hother]
      exact hi i m
  | accept x hx =>
    by_cases heq : i = x.id
    · subst heq
      simp [ThreadState.accept, setDispatch]
    · have hother : (s.accept x).dispatch i = s.dispatch i := by
        simp [ThreadState.accept, setDispatch, push, heq]
      rw [hother]
      exact hi i m
  | _ => exact hi i m

theorem unlimited_of_reachable {ok : ThreadLabel → ThreadState → Prop}
    (hmax : cfg.maxQueueSize = 0) (h : (threadLts cfg).ReachableWhen ok s) (i : ℕ)
    (m : DelegateMsg) : s.dispatch i ≠ .waiting m ∧ s.dispatch i ≠ .faulted m := by
  have hall : ∀ i m, s.dispatch i ≠ .waiting m ∧ s.dispatch i ≠ .faulted m := by
    refine h.induct (P := fun s : ThreadState => ∀ i m, s.dispatch i ≠ .waiting m ∧
      s.dispatch i ≠ .faulted m) ?_ ?_
    · rintro s rfl i m
      simp [initial]
    · intro l s _ hg _ hi
      exact unlimited_step hmax (step_effect cfg hg) hi
  exact hall i m

end ThreadState

namespace Sys

variable {V : Type u} {l : SysLabel V} {s s' : Sys V}

theorem held_iff (hlife : s.thread.Life) {i : ℕ} : s.held i = true ↔ s.thread.Holds i := by
  unfold held ThreadState.Holds
  rw [Bool.or_eq_true, List.any_eq_true, List.any_eq_true]
  constructor
  · rintro (⟨m, hm, hid⟩ | ⟨w, -, hw⟩)
    · left
      rcases List.mem_append.mp hm with hm | hm
      · exact ⟨.high, m, hm, by simpa using hid⟩
      · exact ⟨.normal, m, hm, by simpa using hid⟩
    · right
      rcases Option.any_eq_true .. |>.mp hw with ⟨m, hm, hid⟩
      exact ⟨w, m, hm, by simpa using hid⟩
  · rintro (⟨p, m, hm, hid⟩ | ⟨w, m, hw, hid⟩)
    · refine Or.inl ⟨m, ?_, by simpa using hid⟩
      cases p with
      | high => exact List.mem_append_left _ hm
      | normal => exact List.mem_append_right _ hm
    · -- a worker that holds a message has been spawned
      refine Or.inr ⟨w, ?_, Option.any_eq_true .. |>.mpr ⟨m, hw, by simpa using hid⟩⟩
      apply List.mem_range.mpr
      by_contra hge
      rw [hlife.workers.fresh w (by omega)] at hw
      cases hw

/-! ## The result of a future -/

/-- A future that was handed out stays so. -/
theorem hasFuture_iff {i : ℕ} : s.hasFuture i = true ↔
    ∃ c, s.state i = .future c ∧ c.caller = .returned := by
  unfold hasFuture
  cases s.state i <;> simp

/-- The result is missing only while the call has not returned, or its message
exists. -/
theorem result_eq_none_iff (hlife : s.thread.Life) {i : ℕ} {c : FutureCall V}
    (hc : s.state i = .future c) :
    s.result i = none ↔ c.settled = [] ∧ (c.caller = .returned → s.thread.Holds i) := by
  unfold result
  rw [hc]
  dsimp only
  unfold FutureCall.result
  cases hset : c.settled with
  | cons o rest => simp
  | nil =>
    rw [← held_iff hlife]
    by_cases hret : c.caller = .returned
    · cases hheld : s.held i <;> simp [hret]
    · simp [hret]

/-- The promise is set only by the worker that holds the message. -/
theorem settled_of_step (hg : guard l s) (h : SysEffect l s s') (hi : CallsInv s) {i : ℕ}
    {c : FutureCall V} (hc : s.state i = .future c) :
    ∃ c', s'.state i = .future c' ∧ (c.caller = .returned → c'.caller = .returned) ∧
      (c'.settled = c.settled ∨ s.thread.Holds i) ∧
      ∀ o, FutureCall.SettleInv c → c.settled = [o] → c'.settled = [o] := by
  rcases future_step h hi hc with hsame | ⟨k, hk, hgk, hnew⟩
  · exact ⟨c, hsame, id, Or.inl rfl, fun _ _ h => h⟩
  · refine ⟨c.update k, hnew, ?_, ?_, fun o hi hset => FutureCall.settled_step hgk.1 hi hset⟩
    · intro hret
      cases k with
      | dispatched | dispatchThrew | ret =>
        have hpc := hgk.1
        simp only [FutureCall.guard, hret] at hpc
        cases hpc
      | enter | run | targetReturn _ | targetThrow | settle _ => exact hret
    -- of the steps of the worker only `settle` touches the promise
    · cases k with
      | settle o =>
        right
        rcases hk with hk | hk | ⟨w, hk⟩
        · cases hk
        · rw [hk] at hg
          cases hg.1
        · rw [hk] at hg
          exact Or.inr ⟨w, message i, by rw [hg.2.2.1]; rfl, rfl⟩
      | dispatched | dispatchThrew | ret | enter | run | targetReturn _ | targetThrow =>
        exact Or.inl rfl

/-- A resolved future keeps its result. -/
theorem result_kept {ok : SysLabel V → Sys V → Prop} (hr : (sysLts V).ReachableWhen ok s)
    (hg : guard l s) {i : ℕ} {o : Outcome V} (hres : s.result i = some o) :
    (update l s).result i = some o := by
  have hcalls := calls_of_reachable hr
  have hlife := hcalls.life
  cases hc : s.state i with
  | future c =>
    have hsettle := FutureCall.settle_of_reachable (future_reachable hr hc)
    rcases settled_of_step hg (sys_effect hg) hcalls hc with ⟨c', hc', hret, hset, hkeep⟩
    simp only [result, hc] at hres
    simp only [result, hc']
    cases hs : c.settled with
    | cons x rest =>
      have hrest : rest = [] := by
        have hlen := hsettle.length_le
        rw [hs] at hlen
        exact List.length_eq_zero_iff.mp (by simpa using hlen)
      subst hrest
      rw [FutureCall.result_of_settled hs] at hres
      rw [FutureCall.result_of_settled (hkeep x hsettle hs)]
      exact hres
    | nil =>
      -- a broken promise: the message is gone, and does not come back
      have hboth : c.caller = .returned ∧ s.held i = false ∧ o = .brokenPromise := by
        unfold FutureCall.result at hres
        rw [hs] at hres
        dsimp only at hres
        split at hres
        · rename_i hgone
          exact ⟨hgone.1, hgone.2, by simpa using hres.symm⟩
        · cases hres
      rcases hboth with ⟨hreturned, hheld, rfl⟩
      have hno : ¬ s.thread.Holds i := by
        rw [← held_iff hlife, hheld]
        simp
      have hno' : ¬ (update l s).thread.Holds i := by
        intro hholds
        rcases thread_step (sys_effect hg) with hsame | ⟨k, -, hgk, -, hupd⟩
        · rw [hsame] at hholds
          exact hno hholds
        · rw [hupd] at hholds
          rcases ThreadState.holds_of_step (ThreadState.step_effect sqliteConfig hgk) hholds with
            hold | ⟨hfl, -⟩
          · exact hno hold
          · have hdisp := ((hcalls.dispatch i).of_inFlight hfl).2.1
            rw [hc] at hdisp
            simp [CallState.isDispatching, hreturned] at hdisp
      have hset' : c'.settled = [] := (hset.resolve_right hno).trans hs
      have hlife' : (update l s).thread.Life :=
        ThreadState.life_of_reachable (thread_of_reachable (hr.reachable.next (l := l) hg trivial))
      have hheld' : (update l s).held i = false := by
        by_contra hne
        exact hno' ((held_iff hlife').mp (by simpa using hne))
      simp [FutureCall.result, hset', hret hreturned, hheld']
  | unborn | refused | inPlace _ | wait _ =>
    simp only [result, hc] at hres
    cases hres

theorem result_steps (hr : (sysLts V).Reachable s) (hrun : (sysLts V).Steps s s') {i : ℕ}
    {o : Outcome V} (hres : s.result i = some o) : s'.result i = some o := by
  refine hr.preserves (P := fun s => s.result i = some o) ?_ hrun hres
  intro l s hr' hg _ h
  exact result_kept hr' hg h

end Sys

end AsyncSqlite
