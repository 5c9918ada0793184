import AsyncSqlite.Thread.Handler

/-!
# AsyncSqlite.Thread.Drain — results about one `Thread`

* `exit_drains`: an `ExitThread` that is called on another thread returns with
  every accepted message invoked and nothing running;
* `bounded_queue`: the queues stay within `MAX_QUEUE_SIZE`, a rejected
  `DispatchDelegate` leaves them alone, and each priority is a FIFO.
-/

namespace AsyncSqlite

namespace ThreadState

variable {cfg : Config} {l : ThreadLabel} {s s' : ThreadState}

/-! ## Draining -/

theorem cleared_tag (q : List DelegateMsg) :
    ((q.map (·, Removal.cleared)).filter (·.2 = .cleared)).map (·.1) = q := by
  induction q with
  | nil => rfl
  | cons m q ih => simpa using ih

/-- Messages are destroyed with the queues only by the end of `ExitThread`. -/
theorem cleared_of_step (h : Effect cfg l s s') :
    s'.cleared = s.cleared ∨
      ∃ t, l = .exitReset t ∧ s.control = .exitReset t ∧
        s'.cleared = s.cleared ++ (s.queued .high ++ s.queued .normal) := by
  cases h with
  | popHigh w m rest | popNormal w m rest =>
    left
    simp [ThreadState.cleared, take]
  | reset t hlab hcon =>
    right
    refine ⟨t, hlab, hcon, ?_⟩
    rw [ThreadState.cleared, exitReset, List.filter_append, List.map_append, cleared_tag]
    rfl
  | _ => exact Or.inl rfl

/-- Behind a join the queues are empty. -/
theorem drained_of_exitReset (hj : JoinedInv s) (hq : QueueInv s) {t : Tid}
    (hcon : s.control = .exitReset t) : s.Drained := by
  rcases hq.leaving t hcon with hd | ⟨w, -, hse⟩
  · exact hd
  · rw [hj.noSelfExit w] at hse
    cases hse

theorem queued_of_empty (h : s.Empty) (p : Priority) : s.queued p = [] := by
  cases p <;> simp [queued, h.1, h.2]

/-- Where no handler exits its own thread, no message is ever destroyed. -/
theorem cleared_eq_nil (h : (threadLts cfg).ReachableWhen Joined s) : s.cleared = [] := by
  refine h.induct (P := fun s => s.cleared = []) ?_ ?_
  · rintro s rfl
    rfl
  · intro l s hr hg _ hnil
    rcases cleared_of_step (step_effect cfg hg) with hsame | ⟨t, -, hcon, hcl⟩
    · exact hsame.trans hnil
    · have hd := drained_of_exitReset (joined_of_reachable hr) (queue_of_reachable hr) hcon
      show (update cfg l s).cleared = []
      rw [hcl, hnil, queued_of_empty hd.1, queued_of_empty hd.1]
      rfl

/-- No worker runs `Process`. -/
def NoWorker (s : ThreadState) : Prop :=
  ∀ w, (s.worker w).pc = .notStarted ∨ (s.worker w).pc = .finished

theorem noWorker_of_exitReset (hj : JoinedInv s) (hl : Life s) {t : Tid}
    (hcon : s.control = .exitReset t) : s.NoWorker := by
  intro w
  by_contra hw
  rw [not_or] at hw
  have hc := hl.controls
  simp only [ControlInv, hcon] at hc
  rw [hl.workers.live w (hj.live hw.1 hw.2)] at hc
  cases hc.1

/-- No `CreateThread` call. -/
def NotRecreated (l : ThreadLabel) (_ : ThreadState) : Prop := l ≠ .createThread

/-- The state that a joined `ExitThread` leaves. -/
structure Stopped (s : ThreadState) : Prop where
  control : s.control = .idle
  thread : s.thread = none
  exit : s.exit = true
  noWorker : s.NoWorker

/-- A stopped thread stays stopped and takes no message. -/
theorem Stopped.step (h : Effect cfg l s s') (hl : l ≠ .createThread) (hs : Stopped s) :
    Stopped s' ∧ s'.invoked = s.invoked ∧ s'.pushed = s.pushed := by
  -- no worker is at a point from which it moves
  have hpc : ∀ w pc, pc ≠ .notStarted → pc ≠ .finished → (s.worker w).pc ≠ pc := by
    intro w pc hn hf hw
    rcases hs.noWorker w with hw' | hw'
    · exact hn (hw.symm.trans hw')
    · exact hf (hw.symm.trans hw')
  cases h with
  | stutter => exact ⟨hs, rfl, rfl⟩
  | dispatch => exact ⟨⟨hs.control, hs.thread, hs.exit, hs.noWorker⟩, rfl, rfl⟩
  | beginCreate hlab => exact absurd hlab hl
  | beginExit t hlab hcon hth => exact absurd hs.thread hth
  | clearExit hcon | spawn hcon | started w hcon | pushExit t hcon | join t w hcon
  | detach w hcon | unjoinable t hcon | reset t _ hcon =>
    rw [hs.control] at hcon
    cases hcon
  | accept m hm hexit =>
    rw [hs.exit] at hexit
    cases hexit
  | move w pc hm =>
    exfalso
    cases hm with
    | start hw | leave hw | lock hw | sleep hw | quit hw | wake hw | exitMsg m hw | skip m hw =>
      exact hpc w _ (by simp) (by simp) hw
    | returned m _ hw | returnedExit m _ hw | threw m _ hw =>
      exact hpc w _ (by simp) (by simp) hw
  | popHigh w m rest hw | popNormal w m rest hw => exact absurd hw (hpc w _ (by simp) (by simp))
  | invoke w x m hlab hw => exact absurd hw (hpc w _ (by simp) (by simp))

/-- `Stopped` over a run without `CreateThread`. -/
theorem Stopped.steps (hs : Stopped s)
    (hrun : (threadLts cfg).StepsWhen NotRecreated s s') :
    Stopped s' ∧ s'.invoked = s.invoked ∧ s'.pushed = s.pushed := by
  induction hrun with
  | refl => exact ⟨hs, rfl, rfl⟩
  | tail _ hlast ih =>
    rcases hlast with ⟨l, hg, hok, rfl⟩
    rcases ih with ⟨hs', hinv, hpush⟩
    rcases hs'.step (step_effect cfg hg) hok with ⟨hs'', hinv', hpush'⟩
    exact ⟨hs'', hinv'.trans hinv, hpush'.trans hpush⟩

/-- A message that was rejected is never invoked. -/
theorem not_invoked_of_rejected (h : (threadLts cfg).Reachable s) {m : DelegateMsg}
    (hret : s.dispatch m.id = .returned m false) : m ∉ s.invoked := by
  intro hm
  have hi := history_of_reachable h
  have hret' := (hi.mem_pushed m).mp (hi.mem_pushed_of_invoked hm)
  rw [hret] at hret'
  cases hret'

/-- At the end of a joined `ExitThread` every accepted message with an invoker
has been invoked, once. -/
theorem count_invoked_of_exitReset (h : (threadLts cfg).ReachableWhen Joined s) {t : Tid}
    (hcon : s.control = .exitReset t) {m : DelegateMsg} (hm : m ∈ s.pushed)
    (hinv : m.invoker = true) : s.invoked.count m = 1 := by
  have hi := history_of_reachable h
  have hl := life_of_reachable h
  have hd := drained_of_exitReset (joined_of_reachable h) (queue_of_reachable h) hcon
  have hhand : s.hand = [] := by
    have hc := hl.controls
    simp only [ControlInv, hcon] at hc
    rw [hand, hc.1]
  have hmem : m ∈ s.invoked := by
    rcases hi.cases_of_pushed hm hinv with hq | hh | hin | hcl
    · rw [queued_of_empty hd.1] at hq
      cases hq
    · rw [hhand] at hh
      cases hh
    · exact hin
    · rw [cleared_eq_nil h] at hcl
      cases hcl
  exact List.count_eq_one_of_mem hi.invoked_nodup.of_map hmem

/-- **Drain on exit.** `ExitThread`, called on a thread that is not the worker,
is about to return (`exitReset` is its last critical section). Then, and in
every state after its return until the thread is created again: every message
whose `DispatchDelegate` returned true was invoked exactly once before the
return, no handler runs and none is entered any more, and a message whose
`DispatchDelegate` returned false is not invoked. -/
theorem exit_drains (h : (threadLts cfg).ReachableWhen Joined s) {t : Tid}
    (hcon : s.control = .exitReset t)
    (hrun : (threadLts cfg).StepsWhen NotRecreated (update cfg (.exitReset t) s) s') :
    (∀ m, s'.dispatch m.id = .returned m true → m.invoker = true → s.invoked.count m = 1) ∧
      s'.invoked = s.invoked ∧ (∀ w m, (s'.worker w).pc ≠ .invoking m) ∧
      ∀ m, s'.dispatch m.id = .returned m false → m ∉ s'.invoked := by
  have hstopped : Stopped (update cfg (.exitReset t) s) := by
    have hc := (life_of_reachable h).controls
    simp only [ControlInv, hcon] at hc
    have hnone := noWorker_of_exitReset (joined_of_reachable h) (life_of_reachable h) hcon
    exact ⟨rfl, rfl, hc.2, hnone⟩
  rcases hstopped.steps hrun with ⟨hs', hinv, hpush⟩
  have hr' : (threadLts cfg).Reachable s' := by
    refine Lts.ReachableWhen.steps ?_ (hrun.mono fun _ _ _ => trivial)
    exact Lts.ReachableWhen.next (l := ThreadLabel.exitReset t) h.reachable hcon trivial
  refine ⟨?_, hinv, ?_, fun m hret => not_invoked_of_rejected hr' hret⟩
  · intro m hret hm
    have hmem : m ∈ s.pushed := by
      have hmem' := ((history_of_reachable hr').mem_pushed m).mpr hret
      rwa [hpush] at hmem'
    exact count_invoked_of_exitReset h hcon hmem hm
  · intro w m hw
    rcases hs'.noWorker w with hpc | hpc
    · rw [hpc] at hw
      cases hw
    · rw [hpc] at hw
      cases hw

instance (l : ThreadLabel) (s : ThreadState) : Decidable (Joined l s) :=
  match l with
  | .exitThread (.worker w) => isFalse fun h => h w rfl
  | .exitThread (.client _) => isTrue (by simp [Joined])
  | .createThread | .createClear | .createSpawn | .createStart _ | .exitPush _ | .exitJoin _
  | .exitReset _ | .dispatchDelegate _ | .dispatchHasValue _ | .dispatchLocked _
  | .dispatchWake _ | .dispatchTimeout _ | .processStart _ | .processLoop _ | .processTake _
  | .processWake _ | .processSwitch _ _ | .invokeReturn _ _ | .invokeThrow _ _ =>
    isTrue (by simp [Joined])

/-- A run in which one producer is accepted, a second one waits for room until
`ExitThread` wakes and rejects it, and the worker drains the queue. -/
def drainRun : List ThreadLabel :=
  [.createThread, .createClear, .createSpawn, .processStart 0, .createStart 0,
    .dispatchDelegate ⟨0, true, .high⟩, .dispatchHasValue ⟨0, true, .high⟩,
    .dispatchLocked ⟨0, true, .high⟩, .dispatchDelegate ⟨1, true, .normal⟩,
    .dispatchHasValue ⟨1, true, .normal⟩, .dispatchLocked ⟨1, true, .normal⟩,
    .exitThread (.client 0), .exitPush (.client 0), .dispatchWake ⟨1, true, .normal⟩,
    .processLoop 0, .processTake 0, .processSwitch 0 (.delegate ⟨0, true, .high⟩),
    .invokeReturn 0 ⟨0, true, .high⟩, .processLoop 0, .processTake 0, .processSwitch 0 .exit,
    .exitJoin (.client 0)]

theorem exit_drains_run :
    ∃ s, (threadLts ⟨1, .timeout⟩).ReachableWhen Joined s ∧
      s.control = .exitReset (.client 0) ∧ s.invoked.count ⟨0, true, .high⟩ = 1 ∧
      ⟨1, true, .normal⟩ ∉ s.invoked := by
  obtain ⟨s, hr, hp⟩ := (threadLts ⟨1, .timeout⟩).execWhen_reachable Joined rfl drainRun
    (fun s => s.control = .exitReset (.client 0) ∧
      s.dispatch 0 = .returned ⟨0, true, .high⟩ true ∧
      s.dispatch 1 = .returned ⟨1, true, .normal⟩ false) (by decide)
  obtain ⟨hcon, h₀, h₁⟩ : _ ∧ _ ∧ _ := by simpa using hp
  rcases exit_drains hr hcon .refl with ⟨hdone, hinv, -, hrej⟩
  exact ⟨s, hr, hcon, hdone ⟨0, true, .high⟩ h₀ rfl, hinv ▸ hrej ⟨1, true, .normal⟩ h₁⟩

/-! ## The bound -/

/-- Delegate messages in both queues. -/
def delegateCount (s : ThreadState) : ℕ := (s.queued .high).length + (s.queued .normal).length

theorem delegateCount_le_queueSize (s : ThreadState) : s.delegateCount ≤ s.queueSize := by
  have hhigh : (s.queued .high).length ≤ s.highQueue.length := List.length_filterMap_le _ _
  have hnormal : (s.queued .normal).length ≤ s.normalQueue.length := List.length_filterMap_le _ _
  unfold delegateCount queueSize
  omega

theorem delegateCount_accept (s : ThreadState) (m : DelegateMsg) :
    (s.accept m).delegateCount = s.delegateCount + 1 := by
  have hhigh : (s.accept m).queued .high =
      s.queued .high ++ ofClass DelegateMsg.priority .high [m] :=
    queued_push_delegate s m .high
  have hnormal :
      (s.accept m).queued .normal = s.queued .normal ++ ofClass DelegateMsg.priority .normal [m] :=
    queued_push_delegate s m .normal
  unfold delegateCount
  rw [hhigh, hnormal]
  cases hp : m.priority <;> simp [ofClass_singleton, hp] <;> omega

/-- Only an accepted message makes the queues longer. -/
theorem delegateCount_step (h : Effect cfg l s s') :
    s'.delegateCount ≤ s.delegateCount ∨
      s'.delegateCount = s.delegateCount + 1 ∧
        (cfg.maxQueueSize = 0 ∨ s.queueSize < cfg.maxQueueSize) := by
  cases h with
  | pushExit t hcon =>
    left
    have hhigh := queued_push_exit s .high
    have hnormal := queued_push_exit s .normal
    show (s.push .exit).delegateCount ≤ s.delegateCount
    unfold delegateCount
    rw [hhigh, hnormal]
  | accept m hm hexit hroom => exact Or.inr ⟨delegateCount_accept s m, hroom⟩
  | popHigh w m rest hw hq =>
    left
    have hle : (rest.filterMap (·.data)).length ≤ (s.queued .high).length := by
      simp only [queued, hq]
      exact ((List.sublist_cons_self m rest).filterMap _).length_le
    simpa [delegateCount, queued, take, setPc, setWorker] using hle
  | popNormal w m rest hw _ hq =>
    left
    have hle : (rest.filterMap (·.data)).length ≤ (s.queued .normal).length := by
      simp only [queued, hq]
      exact ((List.sublist_cons_self m rest).filterMap _).length_le
    simpa [delegateCount, queued, take, setPc, setWorker] using hle
  | reset => exact Or.inl (Nat.zero_le _)
  | _ => exact Or.inl le_rfl

theorem delegateCount_le (hmax : 0 < cfg.maxQueueSize) (h : (threadLts cfg).Reachable s) :
    s.delegateCount ≤ cfg.maxQueueSize := by
  refine h.induct (P := fun s => s.delegateCount ≤ cfg.maxQueueSize) ?_ ?_
  · rintro s rfl
    exact Nat.zero_le _
  · intro l s _ hg _ hle
    rcases delegateCount_step (step_effect cfg hg) with hle' | ⟨heq, hroom⟩
    · exact hle'.trans hle
    · have hcount := delegateCount_le_queueSize s
      show (update cfg l s).delegateCount ≤ cfg.maxQueueSize
      omega

/-- The steps of the call `DispatchDelegate(m)`. -/
def IsDispatch (m : DelegateMsg) (l : ThreadLabel) : Prop :=
  l = .dispatchDelegate m ∨ l = .dispatchHasValue m ∨ l = .dispatchLocked m ∨
    l = .dispatchWake m ∨ l = .dispatchTimeout m

theorem dispatchPush_cases (s : ThreadState) (m : DelegateMsg) :
    (∃ pc, s.dispatchPush m = s.setDispatch m.id pc) ∨ s.dispatchPush m = s.accept m := by
  unfold dispatchPush
  split
  · exact Or.inl ⟨_, rfl⟩
  · exact Or.inr rfl

/-- A step of `DispatchDelegate(m)` either moves the call on or accepts. -/
theorem dispatch_cases (cfg : Config) (s : ThreadState) {m : DelegateMsg} (hl : IsDispatch m l) :
    update cfg l s = s ∨ (∃ pc, update cfg l s = s.setDispatch m.id pc) ∨
      update cfg l s = s.accept m := by
  rcases hl with rfl | rfl | rfl | rfl | rfl
  · exact Or.inr (Or.inl ⟨_, rfl⟩)
  · exact Or.inr (Or.inl ⟨_, rfl⟩)
  · simp only [update, dispatchLocked]
    split
    · cases cfg.fullPolicy with
      | drop => exact Or.inr (Or.inl ⟨_, rfl⟩)
      | fault => exact Or.inr (Or.inl ⟨_, rfl⟩)
      | timeout =>
        dsimp only
        split
        · exact Or.inr (dispatchPush_cases s m)
        · exact Or.inr (Or.inl ⟨_, rfl⟩)
    · exact Or.inr (dispatchPush_cases s m)
  · simp only [update]
    split
    · exact Or.inr (dispatchPush_cases s m)
    · exact Or.inl rfl
  · simp only [update]
    split
    · exact Or.inr (dispatchPush_cases s m)
    · exact Or.inr (Or.inl ⟨_, rfl⟩)

/-- Beyond the delegate messages the queues hold at most the exit message. -/
theorem queueSize_cases (h : QueueInv s) :
    s.queueSize = s.delegateCount ∨
      ∃ front, s.normalQueue = front ++ [.exit] ∧
        s.highQueue.length + front.length = s.delegateCount := by
  have hall : ∀ p (q : List ThreadMsg), (∀ m ∈ q, IsDelegate p m) →
      (q.filterMap (·.data)).length = q.length := by
    intro p q hq
    induction q with
    | nil => rfl
    | cons m q ih =>
      rcases hq m List.mem_cons_self with ⟨d, rfl, -⟩
      simpa using ih fun x hx => hq x (List.mem_cons_of_mem _ hx)
  have hhigh : (s.queued .high).length = s.highQueue.length := hall .high _ h.shape.high
  rcases h.shape.normal with ⟨front, back, hq, hfront, hback⟩
  have hlen := hall .normal front hfront
  rcases hback with rfl | ⟨rfl, -⟩
  · left
    have hnormal : (s.queued .normal).length = s.normalQueue.length := by
      simpa [queued, hq] using hlen
    unfold queueSize delegateCount
    omega
  · right
    have hnormal : (s.queued .normal).length = front.length := by
      simpa [queued, hq] using hlen
    refine ⟨front, hq, ?_⟩
    unfold delegateCount
    omega

/-- **Bounded queue.** In every reachable state: the delegate messages of both
queues are within `MAX_QUEUE_SIZE`, and only the exit message may exceed it; no
step of a `DispatchDelegate` call touches the queues unless that call returns
true, and a message that was rejected was never pushed; and within each priority
messages leave the queue, by the worker or by the clearing exit, in the order of
their pushes. -/
theorem bounded_queue (hmax : 0 < cfg.maxQueueSize) (h : (threadLts cfg).Reachable s) :
    (s.delegateCount ≤ cfg.maxQueueSize ∧
      (s.queueSize ≤ cfg.maxQueueSize ∨ ∃ front, s.normalQueue = front ++ [.exit] ∧
        s.highQueue.length + front.length ≤ cfg.maxQueueSize)) ∧
      (∀ l m, IsDispatch m l → guard l s →
        (update cfg l s).dispatch m.id ≠ .returned m true →
        (update cfg l s).highQueue = s.highQueue ∧
          (update cfg l s).normalQueue = s.normalQueue) ∧
      (∀ m, s.dispatch m.id = .returned m false → m ∉ s.pushed) ∧
      ∀ p, ofClass DelegateMsg.priority p (s.removed.map Prod.fst) <+:
          ofClass DelegateMsg.priority p s.pushed ∧
        (ofClass DelegateMsg.priority p s.popped).Sublist
          (ofClass DelegateMsg.priority p (s.removed.map Prod.fst)) := by
  have hi := history_of_reachable h
  have hcount := delegateCount_le hmax h
  refine ⟨⟨hcount, ?_⟩, ?_, ?_, ?_⟩
  · rcases queueSize_cases (queue_of_reachable h) with heq | ⟨front, hq, hlen⟩
    · left
      omega
    · exact Or.inr ⟨front, hq, by omega⟩
  · intro l m hl _ hret
    rcases dispatch_cases cfg s hl with heq | ⟨pc, heq⟩ | heq
    · rw [heq]
      exact ⟨rfl, rfl⟩
    · rw [heq]
      exact ⟨rfl, rfl⟩
    · rw [heq] at hret
      exact absurd (by simp [accept, setDispatch]) hret
  · intro m hret hm
    have hret' := (hi.mem_pushed m).mp hm
    rw [hret] at hret'
    cases hret'
  · intro p
    exact ⟨hi.fifo.removed_prefix p, s.popped_sublist.filter _⟩

/-- One producer fills the queue, a second one waits, and the exit message goes
over the limit. -/
theorem bounded_queue_run :
    ∃ s, (threadLts ⟨1, .timeout⟩).Reachable s ∧ s.queueSize = 2 ∧ s.delegateCount ≤ 1 := by
  obtain ⟨s, hr, hp⟩ := (threadLts ⟨1, .timeout⟩).execWhen_reachable Lts.always rfl
    (drainRun.take 14) (fun s => s.queueSize = 2) (by decide)
  exact ⟨s, hr, by simpa using hp, (bounded_queue (by decide) hr).1.1⟩

end ThreadState

end AsyncSqlite
