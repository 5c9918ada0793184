import AsyncSqlite.Sqlite.Step

/-!
# AsyncSqlite.Sqlite.Dispatch — the caller's side of a message

What the state of a call and its `DispatchDelegate` have to do with each other
(`Link`): a message is in flight only for a call that is dispatching it, a call
that waits was accepted, a call that was left by an exception was not, and the
functions that run in place have no message at all.
-/

namespace AsyncSqlite

universe u

namespace CallState

variable {V : Type u}

/-- No message was ever made for the call. -/
def isSilent : CallState V → Prop
  | .unborn | .refused | .inPlace _ => True
  | .wait _ => False
  | .future c => c.task = .idle ∧ (c.caller = .returned ∨ c.caller = .threw)

/-- `DispatchDelegate` has returned `ok` to the call. -/
def isSent (ok : Bool) : CallState V → Prop
  | .wait c => c.caller ≠ .dispatching ∧ c.caller ≠ .threw ∧ (c.caller = .waiting → ok = true)
  | .future c => c.caller = .returning ∨ c.caller = .returned
  | _ => False

/-- The call was left by the exception of `DispatchDelegate`. -/
def isThrown : CallState V → Prop
  | .wait c => c.caller = .threw
  | .future c => c.caller = .threw
  | _ => False

/-- The promise is unset until the task is entered. -/
def isUnset : CallState V → Prop
  | .future c => c.task = .idle → c.settled = []
  | _ => True

end CallState

section

variable {V : Type u}

/-- The worker's steps leave the caller where it is. -/
theorem WaitCall.update_caller {c : WaitCall V} {k : WaitLabel V} (hside : k.isCaller = false) :
    (c.update k).caller = c.caller := by
  cases k with
  | workerCheck =>
    simp only [WaitCall.update]
    split <;> rfl
  | enter | workerLock | targetReturn _ | targetThrow | setSucceeded | signal | workerUnlock => rfl
  | dispatched _ | dispatchThrew | waitSignaled | waitTimeout | callerLock _ | callerRead _
  | callerClear _ _ | callerUnlock _ _ => cases hside

theorem FutureCall.update_caller {c : FutureCall V} {k : FutureLabel V}
    (hside : k.isCaller = false) : (c.update k).caller = c.caller := by
  cases k with
  | enter | run | targetReturn _ | targetThrow | settle _ => rfl
  | dispatched | dispatchThrew | ret => cases hside

/-- A step of the task finds it entered and leaves it so. -/
theorem FutureCall.task_ne_idle {c : FutureCall V} {k : FutureLabel V} (hside : k.isCaller = false)
    (hne : k ≠ .enter) (hg : FutureCall.guard k c) :
    c.task ≠ .idle ∧ (c.update k).task ≠ .idle := by
  cases k with
  | enter => exact absurd rfl hne
  | run | targetReturn _ | targetThrow | settle _ =>
    have hpc := hg
    simp only [FutureCall.guard] at hpc
    simp [FutureCall.update, hpc]
  | dispatched | dispatchThrew | ret => cases hside

end

namespace Sys

variable {V : Type u} {l : SysLabel V} {s s' : Sys V}

/-! ## The caller's side -/

/-- The message of call `i` in a `DispatchDelegate` at `d`, for a call in state
`st`. -/
def Link (i : ℕ) (st : CallState V) : DispatchPc → Prop
  | .idle => st.isDispatching = true ∧ st.isUnset ∨ st.isSilent
  | .entered m | .checked m | .waiting m | .faulted m =>
    m = message i ∧ st.isDispatching = true ∧ st.isUnset
  | .returned m ok => m = message i ∧ (st.isDispatching = true ∨ st.isSent ok) ∧ st.isUnset
  | .threw m => m = message i ∧ (st.isDispatching = true ∨ st.isThrown) ∧ st.isUnset

def DispatchInv (s : Sys V) : Prop := ∀ i, Link i (s.state i) (s.thread.dispatch i)

/-- A call in its dispatch is linked to every state of it. -/
theorem Link.of_dispatching {i : ℕ} {st : CallState V} {d : DispatchPc}
    (hst : st.isDispatching = true) (hu : st.isUnset) (hd : d.message = some (message i)) :
    Link i st d := by
  cases d with
  | idle => cases hd
  | entered m | checked m | waiting m | faulted m =>
    exact ⟨by simpa [DispatchPc.message] using hd, hst, hu⟩
  | returned m ok | threw m => exact ⟨by simpa [DispatchPc.message] using hd, Or.inl hst, hu⟩

theorem Link.silent_not_dispatching {st : CallState V} (hs : st.isSilent) :
    st.isDispatching = false := by
  cases st with
  | unborn | refused | inPlace pc => rfl
  | wait c => exact hs.elim
  | future c => rcases hs.2 with h | h <;> simp [CallState.isDispatching, h]

/-- A message in flight belongs to a call in its dispatch. -/
theorem Link.of_inFlight {i : ℕ} {st : CallState V} {d : DispatchPc} (h : Link i st d)
    (hd : d.inFlight = true) :
    d.message = some (message i) ∧ st.isDispatching = true ∧ st.isUnset := by
  cases d with
  | entered m | checked m | waiting m =>
    rcases h with ⟨hm, hst, hu⟩
    exact ⟨by rw [DispatchPc.message, hm], hst, hu⟩
  | idle | returned m ok | threw m | faulted m => cases hd

/-- Behind its dispatch a blocking call has been told the outcome. -/
theorem Link.wait_sent {i : ℕ} {c : WaitCall V} {d : DispatchPc} (h : Link i (.wait c) d)
    (hne : c.caller ≠ .dispatching) (ht : c.caller ≠ .threw) :
    ∃ ok, d = .returned (message i) ok ∧ (c.caller = .waiting → ok = true) := by
  have hst : (CallState.wait c).isDispatching = false := by
    cases hpc : c.caller <;> simp_all [CallState.isDispatching]
  cases d with
  | idle =>
    rcases h with ⟨hd, -⟩ | hs
    · rw [hst] at hd
      cases hd
    · exact hs.elim
  | entered m | checked m | waiting m | faulted m =>
    have hd := h.2.1
    rw [hst] at hd
    cases hd
  | returned m ok =>
    rcases h with ⟨hm, hd | hs, -⟩
    · rw [hst] at hd
      cases hd
    · exact ⟨ok, by rw [hm], hs.2.2⟩
  | threw m =>
    rcases h with ⟨-, hd | hs, -⟩
    · rw [hst] at hd
      cases hd
    · exact absurd hs ht

/-- The worker's side of a blocking call is none of its caller's business. -/
theorem Link.wait_of_caller {i : ℕ} {c c' : WaitCall V} {d : DispatchPc}
    (h : Link i (.wait c) d) (hc : c'.caller = c.caller) : Link i (.wait c') d := by
  cases d <;> simpa [Link, CallState.isDispatching, CallState.isSilent, CallState.isSent,
    CallState.isThrown, CallState.isUnset, hc] using h

/-- Nor is the task that of a future call, once it is entered. -/
theorem Link.future_of_caller {i : ℕ} {c c' : FutureCall V} {d : DispatchPc}
    (h : Link i (.future c) d) (hc : c'.caller = c.caller) (ht : c'.task ≠ .idle)
    (hd : c.task ≠ .idle ∨ d ≠ .idle) : Link i (.future c') d := by
  cases d with
  | idle =>
    have htask : c.task ≠ .idle := hd.resolve_right fun hne => hne rfl
    rcases h with ⟨hst, -⟩ | hs
    · exact Or.inl ⟨by simpa [CallState.isDispatching, hc] using hst, fun hidle => absurd hidle ht⟩
    · exact absurd hs.1 htask
  | entered m | checked m | waiting m | faulted m =>
    exact ⟨h.1, by simpa [CallState.isDispatching, hc] using h.2.1, fun hidle => absurd hidle ht⟩
  | returned m ok =>
    refine ⟨h.1, ?_, fun hidle => absurd hidle ht⟩
    simpa [CallState.isDispatching, CallState.isSent, hc] using h.2.1
  | threw m =>
    refine ⟨h.1, ?_, fun hidle => absurd hidle ht⟩
    simpa [CallState.isDispatching, CallState.isThrown, hc] using h.2.1

/-! ### The steps of a call -/

/-- The caller's own step. -/
theorem Link.wait_caller_step {i : ℕ} {c : WaitCall V} {k : WaitLabel V} {d : DispatchPc}
    (h : Link i (.wait c) d) (hside : k.isCaller = true) (hg : WaitCall.guard k c)
    (hd : ∀ ok, k = .dispatched ok → d = .returned (message i) ok)
    (ht : k = .dispatchThrew → d = .threw (message i)) : Link i (.wait (c.update k)) d := by
  -- behind the dispatch the outcome is known, and no step goes back to the wait
  have hsent : c.caller ≠ .dispatching → c.caller ≠ .threw → (c.update k).caller ≠ .dispatching →
      (c.update k).caller ≠ .threw → (c.update k).caller ≠ .waiting →
      Link i (.wait (c.update k)) d := by
    intro hne hne' h1 h2 h3
    rcases h.wait_sent hne hne' with ⟨ok, hret, -⟩
    rw [hret]
    exact ⟨rfl, Or.inr ⟨h1, h2, fun hw => absurd hw h3⟩, trivial⟩
  cases k with
  | dispatched ok =>
    rw [hd ok rfl]
    refine ⟨rfl, Or.inr ⟨?_, ?_, ?_⟩, trivial⟩ <;> cases ok <;> simp [WaitCall.update]
  | dispatchThrew =>
    rw [ht rfl]
    exact ⟨rfl, Or.inr rfl, trivial⟩
  | waitSignaled =>
    exact hsent (by simp [hg.1]) (by simp [hg.1]) (by simp [WaitCall.update])
      (by simp [WaitCall.update]) (by simp [WaitCall.update])
  | waitTimeout =>
    exact hsent (by simp [hg.1]) (by simp [hg.1]) (by simp [WaitCall.update])
      (by simp [WaitCall.update]) (by simp [WaitCall.update])
  | callerLock waited =>
    exact hsent (by simp [hg.1]) (by simp [hg.1]) (by simp [WaitCall.update])
      (by simp [WaitCall.update]) (by simp [WaitCall.update])
  | callerRead waited =>
    have hpc : c.caller = .locked waited := hg
    refine hsent (by simp [hpc]) (by simp [hpc]) ?_ ?_ ?_ <;> cases waited <;>
      simp [WaitCall.update]
  | callerClear success retVal =>
    have hpc : c.caller = .read success retVal := hg
    exact hsent (by simp [hpc]) (by simp [hpc]) (by simp [WaitCall.update])
      (by simp [WaitCall.update]) (by simp [WaitCall.update])
  | callerUnlock success retVal =>
    have hpc : c.caller = .cleared success retVal := hg
    exact hsent (by simp [hpc]) (by simp [hpc]) (by simp [WaitCall.update])
      (by simp [WaitCall.update]) (by simp [WaitCall.update])
  | enter | workerLock | workerCheck | targetReturn _ | targetThrow | setSucceeded | signal
  | workerUnlock => cases hside

/-- The caller's own step of a future call. -/
theorem Link.future_caller_step {i : ℕ} {c : FutureCall V} {k : FutureLabel V} {d : DispatchPc}
    (h : Link i (.future c) d) (hside : k.isCaller = true) (hg : FutureCall.guard k c)
    (hd : k = .dispatched → ∃ ok, d = .returned (message i) ok)
    (ht : k = .dispatchThrew → d = .threw (message i)) : Link i (.future (c.update k)) d := by
  cases k with
  | dispatched =>
    rcases hd rfl with ⟨ok, hret⟩
    rw [hret] at h ⊢
    exact ⟨rfl, Or.inr (Or.inl rfl), h.2.2⟩
  | dispatchThrew =>
    have hthrew := ht rfl
    rw [hthrew] at h ⊢
    exact ⟨rfl, Or.inr rfl, h.2.2⟩
  | ret =>
    have hpc : c.caller = .returning := hg
    -- the caller is past its dispatch, so the dispatch is over
    have hst : (CallState.future c).isDispatching = false := by
      simp [CallState.isDispatching, hpc]
    cases d with
    | idle =>
      rcases h with ⟨hd', -⟩ | ⟨-, hs⟩
      · rw [hst] at hd'
        cases hd'
      · rcases hs with hs | hs <;> simp [hpc] at hs
    | entered m | checked m | waiting m | faulted m =>
      have hd' := h.2.1
      rw [hst] at hd'
      cases hd'
    | returned m ok => exact ⟨h.1, Or.inr (Or.inr rfl), h.2.2⟩
    | threw m =>
      rcases h with ⟨-, hd' | hs, -⟩
      · rw [hst] at hd'
        cases hd'
      · have hs' : c.caller = .threw := hs
        rw [hpc] at hs'
        cases hs'
  | enter | run | targetReturn _ | targetThrow | settle _ => cases hside

/-- A call that was not issued has no message; every way to issue one is linked
to an idle message. -/
theorem Link.of_issued {i : ℕ} {t : Tid} {st : CallState V} {d : DispatchPc}
    (h : Link i (.unborn : CallState V) d) (hst : Issued l s t st) : Link i st d := by
  have hidle : d = .idle := by
    cases d <;> simp_all [Link, CallState.isDispatching, CallState.isSent, CallState.isThrown]
  subst hidle
  cases hst with
  | refused => exact Or.inr trivial
  | wait forever => exact Or.inl ⟨rfl, trivial⟩
  | futureRefused => exact Or.inr ⟨rfl, Or.inr rfl⟩
  | notRunning => exact Or.inr ⟨rfl, Or.inl rfl⟩
  | future w => exact Or.inl ⟨rfl, fun _ => rfl⟩

/-! ### The invariant -/

/-- Calls that were not issued yet. -/
def BirthInv (s : Sys V) : Prop := ∀ i, s.ncalls ≤ i → s.state i = .unborn

theorem BirthInv.step (h : SysEffect l s s') (hi : BirthInv s) : BirthInv s' := by
  -- only calls that were issued are written to
  have hset : ∀ i st, s.state i ≠ .unborn → BirthInv (s.setState i st) := by
    intro i st hborn j hj
    rw [setState_state, if_neg]
    · exact hi j hj
    · rintro rfl
      exact hborn (hi j hj)
  have hissue : ∀ t st, BirthInv (s.issue t st) := by
    intro t st j hj
    have hj' : s.ncalls + 1 ≤ j := hj
    rw [issue_state, if_neg (by omega)]
    exact hi j (by omega)
  cases h with
  | thread k => exact hi
  | enter w x m =>
    intro j hj
    rw [setState_state]
    split
    · rename_i heq
      subst heq
      rw [hi m.id hj]
      rfl
    · exact hi j hj
  | issue t st => exact hissue t st
  | inPlace w => exact hissue (.worker w) (.inPlace .running)
  | wait i c k hl hside hk hc | invoke w i c k hl hside hne hw hexit hc | start w i c hl hw hc =>
    exact hset i _ (by simp [hc])
  | future i c k hl hside hk hc | task w i c k hl hside hne hrun hw hexit hc
  | run w i c hl hw hc => exact hset i _ (by simp [hc])
  | leave i pc hc => exact hset i _ (by simp [hc])
  | get t i => exact hi
  | gotten t i => exact hi

theorem birth_of_reachable {ok : SysLabel V → Sys V → Prop}
    (h : (sysLts V).ReachableWhen ok s) : BirthInv s := by
  refine h.induct ?_ ?_
  · rintro s rfl i -
    rfl
  · intro l s _ hg _ hi
    exact hi.step (sys_effect hg)

theorem DispatchInv.step (h : SysEffect l s s') (hlife : s.thread.Life)
    (hhist : s.thread.HistoryInv) (hb : BirthInv s) (hi : DispatchInv s) : DispatchInv s' := by
  have hset : ∀ j st, Link j st (s.thread.dispatch j) → DispatchInv (s.setState j st) := by
    intro j st hlink i
    rw [setState_state]
    split
    · rename_i heq
      subst heq
      exact hlink
    · exact hi i
  have hlink : ∀ i st, s.state i = st → Link i st (s.thread.dispatch i) := by
    rintro i st rfl
    exact hi i
  cases h with
  | thread k hl hg hk =>
    -- the dispatch of a message moves on; it begins only for a call at that point
    intro i
    have heff := ThreadState.step_effect sqliteConfig hg
    rcases ThreadState.dispatch_of_step heff i with hsame | ⟨m, rfl, rfl, hidle, hm⟩ | ⟨hfl, hm⟩
    · show Link i (s.state i) ((ThreadState.update sqliteConfig k s.thread).dispatch i)
      rw [hsame]
      exact hi i
    · rcases hk with ⟨hmsg, hst⟩
      have hold := hi m.id
      rw [hidle] at hold
      rcases hold with ⟨-, hu⟩ | hsilent
      · exact .of_dispatching hst hu (by rw [← hmsg]; exact hm)
      · rw [Link.silent_not_dispatching hsilent] at hst
        cases hst
    · rcases (hi i).of_inFlight hfl with ⟨hmsg, hst, hu⟩
      exact .of_dispatching hst hu (hm.trans hmsg)
  | enter w x m hl hw hx =>
    have hhand : m ∈ s.thread.hand := by
      rw [ThreadState.hand_of_switch hlife hw hx]
      exact List.mem_singleton_self m
    have hacc := (hhist.mem_pushed m).mp (hhist.mem_pushed_of_hand hhand)
    refine hset m.id _ ?_
    have hold := hi m.id
    show Link m.id (s.state m.id).enter (s.thread.dispatch m.id)
    cases hst : s.state m.id with
    | wait c =>
      rw [hst] at hold
      exact hold.wait_of_caller rfl
    | future c =>
      rw [hst] at hold
      exact hold.future_of_caller rfl (by simp [FutureCall.update]) (Or.inr (by simp [hacc]))
    | unborn | refused | inPlace _ =>
      rw [hst] at hold
      exact hold
  | issue t st hact hst =>
    intro i
    rw [issue_state]
    split
    · rename_i heq
      subst heq
      exact (hlink s.ncalls _ (hb s.ncalls le_rfl)).of_issued hst
    · exact hi i
  | inPlace w =>
    intro i
    rw [recordStart_state, issue_state]
    split
    · rename_i heq
      subst heq
      have hold := hlink s.ncalls _ (hb s.ncalls le_rfl)
      cases hd : s.thread.dispatch s.ncalls with
      | idle =>
        show Link s.ncalls (.inPlace .running) (s.thread.dispatch s.ncalls)
        rw [hd]
        exact Or.inr trivial
      | _ => simp [hd, Link, CallState.isDispatching, CallState.isSent, CallState.isThrown] at hold
    · exact hi i
  | wait i c k hl hside hk hc hg =>
    refine hset i _ ((hlink i _ hc).wait_caller_step hside hg ?_ ?_)
    · rintro ok rfl
      exact hk
    · rintro rfl
      exact hk
  | invoke w i c k hl hside hne hw hexit hc =>
    exact hset i _ ((hlink i _ hc).wait_of_caller (WaitCall.update_caller hside))
  | start w i c hl hw hc =>
    exact hset i _ ((hlink i _ hc).wait_of_caller (WaitCall.update_caller rfl))
  | future i c k hl hside hk hc hg =>
    refine hset i _ ((hlink i _ hc).future_caller_step hside hg ?_ ?_)
    · rintro rfl
      exact hk
    · rintro rfl
      exact hk
  | task w i c k hl hside hne hrun hw hexit hc hg =>
    rcases FutureCall.task_ne_idle hside hne hg with ⟨h1, h2⟩
    exact hset i _ ((hlink i _ hc).future_of_caller (FutureCall.update_caller hside) h2 (Or.inl h1))
  | run w i c hl hw hc hg =>
    rcases FutureCall.task_ne_idle (c := c) (k := .run) rfl (by simp) hg with ⟨h1, h2⟩
    exact hset i _ ((hlink i _ hc).future_of_caller rfl h2 (Or.inl h1))
  | leave i pc hc =>
    refine hset i _ ?_
    have hold := hlink i _ hc
    cases hd : s.thread.dispatch i with
    | idle => exact Or.inr trivial
    | _ => simp [hd, Link, CallState.isDispatching, CallState.isSent, CallState.isThrown] at hold
  | get t i => exact hi
  | gotten t i => exact hi

theorem dispatch_of_reachable {ok : SysLabel V → Sys V → Prop}
    (h : (sysLts V).ReachableWhen ok s) : DispatchInv s := by
  refine h.induct ?_ ?_
  · rintro s rfl i
    exact Or.inr trivial
  · intro l s hr hg _ hi
    have ht := thread_of_reachable hr
    exact hi.step (sys_effect hg) (ThreadState.life_of_reachable ht)
      (ThreadState.history_of_reachable ht) (birth_of_reachable hr)

/-! ## Pushed messages -/

/-- The messages in both queues. -/
def queuedMessages (s : Sys V) : List DelegateMsg :=
  s.thread.queued .high ++ s.thread.queued .normal

/-- A pushed message belongs to a call. -/
theorem born_of_pushed (hhist : s.thread.HistoryInv) (hd : DispatchInv s) {m : DelegateMsg}
    (hm : m ∈ s.thread.pushed) : m = message m.id ∧ s.state m.id ≠ .unborn := by
  have hlink := hd m.id
  rw [(hhist.mem_pushed m).mp hm] at hlink
  refine ⟨hlink.1, fun hun => ?_⟩
  rw [hun] at hlink
  rcases hlink.2.1 with h | h
  · cases h
  · exact h

theorem mem_pushed_of_queued (hhist : s.thread.HistoryInv) {m : DelegateMsg}
    (hm : m ∈ s.queuedMessages) : m ∈ s.thread.pushed := by
  rcases List.mem_append.mp hm with hq | hq
  · exact (hhist.fifo.mem_of_queue hq).1
  · exact (hhist.fifo.mem_of_queue hq).1

end Sys

end AsyncSqlite
