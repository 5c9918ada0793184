import AsyncSqlite.Timer.Ownership

/-!
# AsyncSqlite.Timer.Gate — the gate follows the message

`GateInv` adds the calls in progress and the gates to the `Ledger`: a message
that exists is the one that the gate of its clone names. So the gate lets a tick
through exactly if no message of the clone exists (`isInFlight_iff`).
-/

namespace AsyncSqlite

namespace PacedSys

variable {cfg : Config} {made : ℕ → TimerDelegate} {s s' : PacedSys}

/-! ## Calls and gates -/

structure GateInv (s : PacedSys) : Prop where
  ledger : Ledger s s.thread
  /-- what `DispatchDelegate` was given -/
  message : ∀ i m, s.source i ≠ none → (s.thread.dispatch i).message = some m → m = tickMsg i
  call : ∀ i k, s.source i = some k → (.call ∈ s.msg i ↔ s.timers.call = some (k, i))
  caller : ∀ k i, s.timers.call = some (k, i) → s.source i = some k
  /-- a message that is not dispatched any more has come through -/
  done : ∀ i k, s.source i = some k → s.timers.call = some (k, i) ∨
    ∃ m, (∃ ok, s.thread.dispatch i = .returned m ok) ∨ s.thread.dispatch i = .threw m
  gate : ∀ i k, s.source i = some k → ¬ s.msg.expired i → (s.delegate k).gate.inFlight = some i
  back : ∀ i k, (s.delegate k).gate.inFlight = some i → s.source i = some k

theorem GateInv.initial : GateInv (initial made) := by
  constructor
  · constructor <;> simp [PacedSys.initial, Owners.expired]
  · simp [PacedSys.initial]
  · simp [PacedSys.initial, TimersPc.call]
  · simp [PacedSys.initial, TimersPc.call]
  · simp [PacedSys.initial]
  · simp [PacedSys.initial]
  · simp [PacedSys.initial, TimerDelegate.clone, PacedDispatch.initial]

/-- The steps of connections and of `ProcessTimers` around the calls. -/
theorem GateInv.frame (h : GateInv s) (hthread : s'.thread = s.thread)
    (hdel : s'.delegate = s.delegate) (hsrc : s'.source = s.source) (hmsg : s'.msg = s.msg)
    (htok : s'.token = s.token) (hth : s'.thrown = s.thrown)
    (hcall : s'.timers.call = s.timers.call) : GateInv s' := by
  obtain ⟨hledger, hm, hc, hcl, hd, hg, hb⟩ := h
  constructor
  · rw [hthread]
    exact hledger.congr hsrc hmsg htok hth
  · rw [hsrc, hthread]
    exact hm
  · rw [hsrc, hmsg, hcall]
    exact hc
  · rw [hsrc, hcall]
    exact hcl
  · rw [hsrc, hcall, hthread]
    exact hd
  · rw [hsrc, hmsg, hdel]
    exact hg
  · rw [hsrc, hdel]
    exact hb

/-! ### The target thread -/

/-- An event changes owners and nothing else. -/
theorem apply_eq (s : PacedSys) (e : ThreadState.CustodyEvent) :
    (s.apply e).delegate = s.delegate ∧ (s.apply e).source = s.source ∧
      (s.apply e).timers = s.timers := by
  cases e <;> exact ⟨rfl, rfl, rfl⟩

theorem mem_apply_call (s : PacedSys) (e : ThreadState.CustodyEvent) (i : ℕ) :
    .call ∈ (s.apply e).msg i ↔ .call ∈ s.msg i := by
  cases e <;> simp [apply, letGo, Owners.mem_copy, Owners.mem_release]

/-- An event brings no message back. -/
theorem expired_apply {e : ThreadState.CustodyEvent} {i : ℕ} (h : s.msg.expired i) :
    (s.apply e).msg.expired i := by
  cases e with
  | none | unwind => exact h
  | post | enter => exact Owners.expired_copy.mpr h
  | leave => exact Owners.expired_release (Owners.expired_release h)
  | clear => exact Owners.expired_release h

/-- Only `DispatchDelegate` of its own call touches the message of a call. -/
theorem message_step {l : ThreadLabel} (h : GateInv s) (hg : guard (.thread l) s) (i : ℕ)
    (m : DelegateMsg) (hsrc : s.source i ≠ none)
    (hm : ((ThreadState.update cfg l s.thread).dispatch i).message = some m) : m = tickMsg i := by
  rcases ThreadState.dispatch_of_step (ThreadState.step_effect cfg hg.1) i with
    hsame | ⟨x, rfl, rfl, -, hx⟩ | ⟨-, hsame⟩
  · rw [hsame] at hm
    exact h.message i m hsrc hm
  · rw [hx] at hm
    cases hm
    exact hg.2.resolve_left hsrc
  · rw [hsame] at hm
    exact h.message i m hsrc hm

/-- A pushed message of `operator()` is the one that it made. -/
theorem GateInv.genuine (h : GateInv s) (hs : s.thread.Sound) {x : DelegateMsg}
    (hx : x ∈ s.thread.pushed ∨ (s.thread.dispatch x.id).message = some x) : s.Genuine x := by
  intro hsrc
  refine h.message x.id x hsrc ?_
  rcases hx with hx | hx
  · rw [(hs.history.mem_pushed x).mp hx]
    rfl
  · exact hx

theorem invoked_mono {l : ThreadLabel} {t t' : ThreadState} (h : ThreadState.Effect cfg l t t') :
    ∀ m ∈ t.invoked, m ∈ t'.invoked := by
  intro m hm
  rcases ThreadState.invoked_of_step h with hsame | ⟨w, x, d, -, -, -, rfl⟩
  · rw [hsame]
    exact hm
  · exact List.mem_append_left _ hm

/-- The call that pushes a message still holds it. -/
theorem GateInv.call_of_inFlight (h : GateInv s) {i : ℕ} (hsrc : s.source i ≠ none)
    (hpc : (s.thread.dispatch i).inFlight = true) : .call ∈ s.msg i := by
  obtain ⟨k, hk⟩ := Option.ne_none_iff_exists'.mp hsrc
  rcases h.done i k hk with hcall | ⟨m, ⟨ok, hret⟩ | hthrew⟩
  · exact (h.call i k hk).mpr hcall
  · rw [hret] at hpc
    cases hpc
  · rw [hthrew] at hpc
    cases hpc

theorem GateInv.ledger_step {l : ThreadLabel} (h : GateInv s)
    (hr : (threadLts cfg).Reachable s.thread) (hg : ThreadState.guard l s.thread) :
    Ledger (s.apply (ThreadState.event cfg l s.thread)) (ThreadState.update cfg l s.thread) := by
  have hs := ThreadState.sound_of_reachable hr
  have ha := Apart.of_sound hs
  have hmono := invoked_mono (ThreadState.step_effect cfg hg)
  have hmoves := fun i => ThreadState.custody_step hr hg (m := tickMsg i) rfl
  have henabled := ThreadState.event_enabled cfg hg hs
  have hgenuine : ∀ x ∈ s.thread.outstanding, s.Genuine x := fun x hx =>
    h.genuine hs (Or.inl (ThreadState.mem_pushed_of_outstanding hs hx))
  have hpending : ∀ x ∈ s.thread.pending, s.Genuine x :=
    fun x hx => hgenuine x (List.mem_append_left _ hx)
  have hrunning : ∀ x ∈ s.thread.running, s.Genuine x :=
    fun x hx => hgenuine x (List.mem_append_right _ hx)
  -- one rule of the ledger for each event
  cases hev : ThreadState.event cfg l s.thread with
  | none =>
    rw [hev] at hmoves
    exact h.ledger.quiet hmono (fun i => (hmoves i).1) (fun i => (hmoves i).2)
  | post x =>
    rw [hev] at hmoves henabled
    exact h.ledger.post (h.genuine hs (Or.inr henabled.2))
      (fun hsrc => h.call_of_inFlight hsrc henabled.1) hmono
      (fun i => (hmoves i).1) (fun i => (hmoves i).2)
  | enter x =>
    rw [hev] at hmoves henabled
    exact h.ledger.enter ha (hpending x henabled) henabled hmono
      (fun i => (hmoves i).1) (fun i => (hmoves i).2)
  | leave x =>
    rw [hev] at hmoves henabled
    exact h.ledger.leave ha (hrunning x henabled) henabled hmono
      (fun i => (hmoves i).1) (fun i => (hmoves i).2)
  | unwind x =>
    rw [hev] at hmoves henabled
    exact h.ledger.unwind ha (hrunning x henabled) henabled hmono
      (fun i => (hmoves i).1) (fun i => (hmoves i).2)
  | clear xs =>
    rw [hev] at hmoves henabled
    exact h.ledger.clear ha (fun x hx => hpending x (henabled x hx)) henabled hmono
      (fun i => (hmoves i).1) (fun i => (hmoves i).2)

theorem GateInv.thread {l : ThreadLabel} (h : GateInv s) (hr : (threadLts cfg).Reachable s.thread)
    (hg : guard (.thread l) s) : GateInv (s.threadStep cfg l) := by
  have hledger := h.ledger_step hr hg.1
  obtain ⟨hdel, hsource, htimers⟩ := apply_eq s (ThreadState.event cfg l s.thread)
  have hcall := mem_apply_call s (ThreadState.event cfg l s.thread)
  have hexp := fun i => expired_apply (s := s) (e := ThreadState.event cfg l s.thread) (i := i)
  have hdel' : (s.threadStep cfg l).delegate = s.delegate := hdel
  have hsource' : (s.threadStep cfg l).source = s.source := hsource
  have htimers' : (s.threadStep cfg l).timers = s.timers := htimers
  constructor
  · exact hledger.congr rfl rfl rfl rfl
  · rw [hsource']
    exact message_step h hg
  · rw [hsource', htimers']
    intro i k hsrc
    exact (hcall i).trans (h.call i k hsrc)
  · rw [hsource', htimers']
    exact h.caller
  · rw [hsource', htimers']
    intro i k hsrc
    -- what `DispatchDelegate` came to is final
    have heff := ThreadState.step_effect cfg hg.1
    rcases h.done i k hsrc with hc | ⟨m, ⟨ok, hret⟩ | hthrew⟩
    · exact Or.inl hc
    · exact Or.inr ⟨m, Or.inl ⟨ok, ThreadState.returned_step heff hret⟩⟩
    · exact Or.inr ⟨m, Or.inr (ThreadState.threw_step heff hthrew)⟩
  · rw [hsource', hdel']
    intro i k hsrc hnexp
    exact h.gate i k hsrc fun hold => hnexp (hexp i hold)
  · rw [hsource', hdel']
    exact h.back

/-! ### `operator()` -/

/-- The gate of a clone lets a tick through if no message of the clone exists. -/
theorem GateInv.isInFlight_iff (h : GateInv s) (k : ℕ) :
    (s.delegate k).gate.isInFlight s.token ↔ ∃ i, s.source i = some k ∧ ¬ s.msg.expired i := by
  constructor
  · rintro ⟨i, hi, htok⟩
    refine ⟨i, h.back i k hi, ?_⟩
    obtain ⟨w, hw⟩ := Owners.not_expired_iff.mp htok
    cases w with
    | message => exact (h.ledger.tokenMessage i).mp hw
    | handler => exact Owners.not_expired_iff.mpr ⟨_, h.ledger.tokenHandler i hw⟩
  · rintro ⟨i, hsrc, hexp⟩
    refine ⟨i, h.gate i k hsrc hexp, ?_⟩
    exact Owners.not_expired_iff.mpr ⟨_, (h.ledger.tokenMessage i).mpr hexp⟩

/-- A tick that is skipped. -/
theorem GateInv.skip (h : GateInv s) {k : ℕ} {rest : List ℕ} (hcall : s.timers.call = none) :
    GateInv { s with
      delegate := Function.update s.delegate k
        { s.delegate k with gate := { (s.delegate k).gate with pending := true } }
      timers := .invoking rest } := by
  have hsame : ∀ j, ((Function.update s.delegate k
      { s.delegate k with gate := { (s.delegate k).gate with pending := true } }) j).gate.inFlight =
      (s.delegate j).gate.inFlight := by
    intro j
    by_cases hj : j = k
    · subst hj
      simp
    · simp [hj]
  have hc := h.call
  have hd := h.done
  rw [hcall] at hc
  simp only [hcall] at hd
  refine ⟨h.ledger.congr rfl rfl rfl rfl, h.message, hc, ?_, hd, ?_, ?_⟩
  · intro j i hi
    cases hi
  · intro i j hsrc hexp
    rw [← h.gate i j hsrc hexp]
    exact hsame j
  · intro i j hin
    refine h.back i j ?_
    rw [← hsame j]
    exact hin

/-- A tick that goes through: its number is new to the thread. -/
theorem GateInv.fire (h : GateInv s) (hs : s.thread.Sound) {k i : ℕ} {rest : List ℕ}
    {g : PacedDispatch} (hcall : s.timers.call = none) (hg : g.inFlight = some i)
    (hclosed : ¬ (s.delegate k).gate.isInFlight s.token) (hsrc : s.source i = none)
    (hidle : s.thread.dispatch i = .idle) :
    GateInv { s with
      delegate := Function.update s.delegate k { s.delegate k with gate := g }
      timers := .dispatching k i rest
      source := Function.update s.source i (some k)
      msg := s.msg.create i .call
      token := s.token.create i .message } := by
  rw [h.isInFlight_iff] at hclosed
  -- the thread has never seen the number, so no owner of it is left there
  have hpushed : tickMsg i ∉ s.thread.pushed := by
    intro hmem
    have hret : s.thread.dispatch i = _ := (hs.history.mem_pushed _).mp hmem
    rw [hidle] at hret
    cases hret
  have hpend : tickMsg i ∉ s.thread.pending :=
    fun hmem => hpushed (ThreadState.mem_pushed_of_pending hs.history hmem)
  have hrun : tickMsg i ∉ s.thread.running := fun hmem =>
    hpushed (hs.history.mem_pushed_of_invoked ((Apart.of_sound hs).running i hmem))
  constructor
  · exact h.ledger.create hsrc hpend hrun rfl rfl rfl rfl
  · intro j m hj hm
    by_cases hji : j = i
    · subst hji
      have hm' : (s.thread.dispatch j).message = some m := hm
      rw [hidle] at hm'
      cases hm'
    · exact h.message j m (by simpa [hji] using hj) hm
  · intro j k' hj
    show _ ∈ s.msg.create i .call j ↔ some (k, i) = some (k', j)
    rw [Owners.mem_create]
    by_cases hji : j = i
    · subst hji
      have hk : k = k' := by simpa using hj
      simp [hk]
    · have hc := h.call j k' (by simpa [hji] using hj)
      rw [hcall] at hc
      simp [hji, hc, Ne.symm hji]
  · intro k' j hj
    have hpair : k = k' ∧ i = j := by simpa [TimersPc.call] using hj
    obtain ⟨rfl, rfl⟩ := hpair
    exact Function.update_self ..
  · intro j k' hj
    by_cases hji : j = i
    · subst hji
      have hk : k = k' := by simpa using hj
      exact Or.inl (by rw [← hk]; rfl)
    · rcases h.done j k' (by simpa [hji] using hj) with hc | hc
      · rw [hcall] at hc
        cases hc
      · exact Or.inr hc
  · intro j k' hj hexp
    show (Function.update s.delegate k _ k').gate.inFlight = some j
    by_cases hji : j = i
    · subst hji
      have hk : k = k' := by simpa using hj
      subst hk
      simpa using hg
    · have hj' : s.source j = some k' := by simpa [hji] using hj
      have hexp' : ¬ s.msg.expired j := by
        simpa [Owners.expired, Owners.create, hji] using hexp
      -- an older message of this clone would have kept the gate closed
      have hk : k' ≠ k := by
        rintro rfl
        exact hclosed ⟨j, hj', hexp'⟩
      rw [Function.update_of_ne hk]
      exact h.gate j k' hj' hexp'
  · intro j k' hin
    show Function.update s.source i (some k) j = some k'
    by_cases hk : k' = k
    · subst hk
      have hj : i = j := by simpa [hg] using hin
      subst hj
      simp
    · have hin' : (s.delegate k').gate.inFlight = some j := by simpa [hk] using hin
      -- the other gates refer to older messages
      have hj := h.back j k' hin'
      have hji : j ≠ i := by
        rintro rfl
        rw [hsrc] at hj
        cases hj
      simpa [hji] using hj

/-- The call lets go of its message. -/
theorem GateInv.finish (h : GateInv s) {k i : ℕ} (hcall : s.timers.call = some (k, i))
    (hdone : ∃ m, (∃ ok, s.thread.dispatch i = .returned m ok) ∨ s.thread.dispatch i = .threw m)
    {pc : TimersPc} (hpc : pc.call = none) (snapshots : List (List ℕ)) :
    GateInv { s.letGo [i] .call with timers := pc, snapshots := snapshots } := by
  -- the call gives up its own share of message `i` and no other
  have hmem : ∀ w j, w ∈ (s.letGo [i] .call).msg j ↔ w ∈ s.msg j ∧ ¬ (j = i ∧ w = .call) := by
    intro w j
    show w ∈ s.msg.release [i] .call j ↔ _
    rw [Owners.mem_release, List.mem_singleton]
  have hexp : ∀ j, s.msg.expired j → (s.letGo [i] .call).msg.expired j :=
    fun j => Owners.expired_release
  constructor
  · exact (h.ledger.letGo_call i).congr rfl rfl rfl rfl
  · exact h.message
  · intro j k' hj
    rw [hmem, h.call j k' hj, hcall, hpc]
    simp only [Option.some.injEq, Prod.mk.injEq, reduceCtorEq, iff_false]
    rintro ⟨⟨-, rfl⟩, hnot⟩
    exact hnot ⟨rfl, trivial⟩
  · intro k' j hj
    have hj' : pc.call = some (k', j) := hj
    rw [hpc] at hj'
    cases hj'
  · intro j k' hj
    right
    by_cases hji : j = i
    · subst hji
      exact hdone
    · rcases h.done j k' hj with hc | hc
      · rw [hcall] at hc
        cases hc
        exact absurd rfl hji
      · exact hc
  · intro j k' hj hnexp
    exact h.gate j k' hj fun hold => hnexp (hexp j hold)
  · exact h.back

/-! ## Every reachable state -/

theorem call_nextPc (snapshots : List (List ℕ)) : (nextPc snapshots).call = none := by
  cases snapshots <;> rfl

/-- What a tick does. -/
theorem tick_cases (s : PacedSys) {k : ℕ} {rest : List ℕ} (i now : ℕ)
    (ht : s.timers = .invoking (k :: rest)) :
    (s.delegate k).gate.isInFlight s.token ∧
        s.tick i now = { s with
          delegate := Function.update s.delegate k
            { s.delegate k with gate := { (s.delegate k).gate with pending := true } }
          timers := .invoking rest } ∨
      ¬ (s.delegate k).gate.isInFlight s.token ∧
        s.tick i now = { s with
          delegate := Function.update s.delegate k
            { s.delegate k with gate := ⟨some i, now, false⟩ }
          timers := .dispatching k i rest
          source := Function.update s.source i (some k)
          msg := s.msg.create i .call
          token := s.token.create i .message } := by
  by_cases hin : (s.delegate k).gate.isInFlight s.token
  · left
    refine ⟨hin, ?_⟩
    simp [tick, ht, operatorCall, TimerDelegate.tryFire, hin]
  · right
    refine ⟨hin, ?_⟩
    simp [tick, ht, operatorCall, TimerDelegate.tryFire, hin]

theorem GateInv.step {l : PacedLabel} (h : GateInv s) (hr : (threadLts cfg).Reachable s.thread)
    (hg : guard l s) : GateInv (update cfg l s) := by
  cases l with
  | thread l => exact h.thread hr hg
  | connect σ => exact h.frame rfl rfl rfl rfl rfl rfl rfl
  | disconnectImpl k => exact h.frame rfl rfl rfl rfl rfl rfl rfl
  | disconnectReset k => exact h.frame rfl rfl rfl rfl rfl rfl rfl
  | clear σ => exact h.frame rfl rfl rfl rfl rfl rfl rfl
  | processTimers =>
    have ht : s.timers = .idle := hg
    exact h.frame rfl rfl rfl rfl rfl rfl (by rw [ht]; rfl)
  | getSnapshot σ => exact h.frame rfl rfl rfl rfl rfl rfl rfl
  | unlock =>
    have ht : s.timers = .collecting := hg
    refine h.frame rfl rfl rfl rfl rfl rfl ?_
    rw [ht]
    exact call_nextPc s.snapshots
  | tick i now =>
    obtain ⟨hnext, hsrc, hidle⟩ := hg
    unfold next at hnext
    split at hnext
    · rename_i k rest ht
      have hcall : s.timers.call = none := by rw [ht]; rfl
      show GateInv (s.tick i now)
      rcases tick_cases s i now ht with ⟨-, heq⟩ | ⟨hclosed, heq⟩
      · rw [heq]
        exact h.skip hcall
      · rw [heq]
        exact h.fire (ThreadState.sound_of_reachable hr) hcall rfl hclosed hsrc hidle
    · exact absurd rfl hnext
  | tickReturn =>
    simp only [guard, callDone] at hg
    show GateInv s.tickReturn
    unfold tickReturn
    split at hg
    · rename_i k i rest ht
      have hcall : s.timers.call = some (k, i) := by rw [ht]; rfl
      simp only
      split at hg
      · rename_i m ok hret
        simp only [hret]
        exact h.finish hcall ⟨m, Or.inl ⟨ok, hret⟩⟩ rfl s.snapshots
      · rename_i m hthrew
        simp only [hthrew]
        exact h.finish hcall ⟨m, Or.inr hthrew⟩ rfl []
      · exact absurd hg not_false
    · exact absurd hg not_false
  | release =>
    have ht : s.timers = .invoking [] := hg
    refine h.frame rfl rfl rfl rfl rfl rfl ?_
    rw [ht]
    exact call_nextPc s.snapshots.tail

/-- The target thread by itself is a `Thread`. -/
theorem thread_of_reachable {ok : PacedLabel → PacedSys → Prop}
    (h : (pacedLts cfg made).ReachableWhen ok s) : (threadLts cfg).Reachable s.thread := by
  refine h.map (f := PacedSys.thread) ?_ ?_
  · rintro s rfl
    rfl
  · intro l s _ hg _
    cases l with
    | thread l => exact Or.inr ⟨l, hg.1, trivial, rfl⟩
    | tick i now =>
      left
      show (s.tick i now).thread = s.thread
      unfold tick operatorCall
      split
      · dsimp only
        split <;> rfl
      · rfl
    | tickReturn =>
      left
      show s.tickReturn.thread = s.thread
      unfold tickReturn
      split
      · split <;> rfl
      · rfl
    | _ => exact Or.inl rfl

theorem gate_of_reachable {ok : PacedLabel → PacedSys → Prop}
    (h : (pacedLts cfg made).ReachableWhen ok s) : GateInv s := by
  refine h.induct ?_ ?_
  · rintro s rfl
    exact GateInv.initial
  · intro l s hr hg _ hi
    exact hi.step (thread_of_reachable hr) hg

end PacedSys

end AsyncSqlite
