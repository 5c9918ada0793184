import AsyncSqlite.Port.RtosThread

/-!
# AsyncSqlite.Port.RtosHistory — the life and the accounts of an RTOS `Thread`

`LifeInv` says which task and semaphore belong to which point of `CreateThread` and
`ExitThread`; `HistoryInv` keeps the accounts (`Ledger`). Both hold on ThreadX,
Zephyr and CMSIS-RTOS2.
-/

namespace AsyncSqlite

namespace RtosThread

variable {p : RtosPort} {cfg : Config} {l : RtosThreadLabel} {s s' : RtosThread}

/-! ## The life of the task -/

/-- In the callback that called `ExitThread`, or behind it. -/
def Returning : RtosPc → Prop
  | .invoking _ | .faulted | .deleted => True
  | _ => False

structure LifeInv (s : RtosThread) : Prop where
  queue : s.queue.isSome = s.created
  running : s.created = true → s.task ≠ .notCreated
  stopped : s.created = false → s.selfExit = false → s.task = .notCreated ∨ s.task = .deleted
  selfExit : s.selfExit = true → s.created = false ∧ s.exit = true ∧ Returning s.task
  busy : s.control ≠ .idle → s.created = true ∧ s.exit = true
  cleanUp : s.control = .cleanUp → s.task = .deleted
  sem : s.exitSem = if s.created = true ∧ s.task = .deleted ∧ s.control ≠ .cleanUp then 1 else 0

theorem LifeInv.initial : LifeInv initial where
  queue := rfl
  running := by simp [RtosThread.initial]
  stopped _ _ := Or.inl rfl
  selfExit := by simp [RtosThread.initial]
  busy := by simp [RtosThread.initial]
  cleanUp := by simp [RtosThread.initial]
  sem := rfl

/-- No exit by another thread is in progress while there is no thread. -/
theorem LifeInv.idle (h : LifeInv s) (hcreated : s.created = false) : s.control = .idle := by
  by_contra hbusy
  have hthread := (h.busy hbusy).1
  rw [hcreated] at hthread
  cases hthread

/-- A task that has not ended belongs to a thread, or to a callback that has called
`ExitThread`. -/
theorem LifeInv.created (h : LifeInv s) (halive : s.task ≠ .notCreated ∧ ¬ Returning s.task) :
    s.created = true ∧ s.selfExit = false := by
  have hself : s.selfExit = false := by
    by_contra hself
    exact halive.2 (h.selfExit (by simpa using hself)).2.2
  refine ⟨?_, hself⟩
  by_contra hcreated
  rcases h.stopped (by simpa using hcreated) hself with htask | htask
  · exact halive.1 htask
  · rw [htask] at halive
    exact halive.2 trivial

/-- The task of a thread goes on without touching anything else of its life. -/
theorem LifeInv.run (h : LifeInv s) (pc : RtosPc) (hnot : s.task ≠ .notCreated)
    (halive : s.task ≠ .deleted) (hpc : pc ≠ .notCreated ∧ pc ≠ .deleted)
    (hself : s.selfExit = true → Returning pc) (hq : s'.queue.isSome = s.queue.isSome)
    (hs' : s'.created = s.created ∧ s'.selfExit = s.selfExit ∧ s'.exit = s.exit ∧
      s'.control = s.control ∧ s'.exitSem = s.exitSem ∧ s'.task = pc) : LifeInv s' := by
  rcases hs' with ⟨hcreated', hself', hexit', hcontrol', hsem', htask'⟩
  have hcleanUp : s.control ≠ .cleanUp := fun hcontrol => halive (h.cleanUp hcontrol)
  constructor
  · rw [hq, hcreated', h.queue]
  · intro _
    rw [htask']
    exact hpc.1
  · rw [hcreated', hself']
    intro hcreated hself
    rcases h.stopped hcreated hself with htask | htask
    · exact absurd htask hnot
    · exact absurd htask halive
  · rw [hself', hcreated', hexit', htask']
    intro hself₁
    rcases h.selfExit hself₁ with ⟨hcreated, hexit, -⟩
    exact ⟨hcreated, hexit, hself hself₁⟩
  · rw [hcontrol', hcreated', hexit']
    exact h.busy
  · rw [hcontrol']
    intro hcontrol
    exact absurd hcontrol hcleanUp
  · rw [hsem', h.sem, if_neg (fun hc => halive hc.2.1), if_neg]
    rw [htask']
    exact fun hc => hpc.2 hc.2.1

/-- Where the task was before it moved, and where it is. -/
theorem TaskMove.cases {pc : RtosPc} (h : TaskMove s pc) :
    s.task ≠ .notCreated ∧ s.task ≠ .deleted ∧ pc ≠ .notCreated ∧
      (pc = .deleted → s.selfExit = true) ∧
      (Returning s.task → s.selfExit = true → Returning pc) := by
  cases h with
  | leave htask | receive htask | timeout htask =>
    rw [htask]
    exact ⟨by simp, by simp, by simp, by simp, fun hret => absurd hret id⟩
  | exitMsg m htask | noInvoker m htask =>
    rw [htask]
    exact ⟨by simp, by simp, by simp, by simp, fun hret => absurd hret id⟩
  | returned m htask hself =>
    rw [htask, hself]
    exact ⟨by simp, by simp, by simp, by simp, fun _ hfalse => by cases hfalse⟩
  | returnedSelf m htask hself =>
    rw [htask]
    exact ⟨by simp, by simp, by simp, fun _ => hself, fun _ _ => trivial⟩

theorem LifeInv.move (h : LifeInv s) {pc : RtosPc} (hm : TaskMove s pc) :
    LifeInv { s with task := pc } := by
  rcases hm.cases with ⟨hnot, halive, hpc, hdeleted, hret⟩
  by_cases hend : pc = .deleted
  · -- the callback that called `ExitThread` has returned
    have hself := hdeleted hend
    rcases h.selfExit hself with ⟨hcreated, hexit, -⟩
    have hidle := h.idle hcreated
    constructor
    · exact h.queue
    · intro hthread
      exact absurd (hcreated.symm.trans hthread) (by decide)
    · intro _ hnotSelf
      exact absurd (hself.symm.trans hnotSelf) (by decide)
    · intro _
      refine ⟨hcreated, hexit, ?_⟩
      rw [hend]
      trivial
    · exact h.busy
    · intro hcontrol
      exact absurd (hidle.symm.trans hcontrol) (by decide)
    · rw [h.sem, if_neg (fun hc => halive hc.2.1), if_neg]
      intro hc
      exact absurd (hcreated.symm.trans hc.1) (by decide)
  · refine h.run pc hnot halive ⟨hpc, hend⟩ ?_ rfl ⟨rfl, rfl, rfl, rfl, rfl, rfl⟩
    intro hself
    exact hret (h.selfExit hself).2.2 hself

theorem LifeInv.step (h : Effect p cfg l s s') (hi : LifeInv s) : LifeInv s' := by
  cases h with
  | stutter => exact hi
  | create watchdog hidle hcreated htask =>
    have hsem : s.exitSem = 0 := by
      rw [hi.sem, if_neg]
      intro hc
      exact absurd (hcreated.symm.trans hc.1) (by decide)
    exact
      { queue := rfl
        running := fun _ hfalse => by cases hfalse
        stopped := fun hfalse => by cases hfalse
        selfExit := fun hfalse => by cases hfalse
        busy := fun hbusy => absurd hidle hbusy
        cleanUp := fun hcontrol => absurd (hidle.symm.trans hcontrol) (by decide)
        sem := by
          rw [if_neg (by simp)]
          cases p with
          | cmsisRtos2 => rfl
          | _ => exact hsem }
  | beginExit q hl hidle hq =>
    have hcreated : s.created = true := by
      rw [← hi.queue, hq]
      rfl
    have hsem := hi.sem
    rw [hidle] at hsem
    exact
      { hi with
        selfExit := fun hself => ⟨(hi.selfExit hself).1, rfl, (hi.selfExit hself).2.2⟩
        busy := fun _ => ⟨hcreated, rfl⟩
        cleanUp := fun hfalse => by cases hfalse
        sem := by simpa using hsem }
  | put hcontrol =>
    have hbusy := hi.busy (by rw [hcontrol]; decide)
    have hsem := hi.sem
    rw [hcontrol] at hsem
    exact
      { hi with
        queue := by simpa [exitPut] using hi.queue
        busy := fun _ => hbusy
        cleanUp := fun hfalse => by cases hfalse
        sem := by simpa [exitPut] using hsem }
  | acquire hcontrol hgiven =>
    have hbusy := hi.busy (by rw [hcontrol]; decide)
    have hsem := hi.sem
    -- it was the task that gave the semaphore
    have hended : s.created = true ∧ s.task = .deleted ∧ s.control ≠ .cleanUp := by
      by_contra hnot
      rw [if_neg hnot] at hsem
      omega
    rw [if_pos hended] at hsem
    exact
      { hi with
        busy := fun _ => hbusy
        cleanUp := fun _ => hended.2.1
        sem := by
          dsimp only
          rw [hsem, if_neg (by simp)] }
  | cleanUp hcontrol =>
    have htask := hi.cleanUp hcontrol
    have hself : s.selfExit = false := by
      by_contra hself
      have hcreated := (hi.selfExit (by simpa using hself)).1
      have hbusy := hi.busy (by rw [hcontrol]; decide)
      exact absurd (hcreated.symm.trans hbusy.1) (by decide)
    have hsem := hi.sem
    rw [if_neg (by simp [hcontrol])] at hsem
    exact
      { queue := rfl
        running := fun hfalse => by cases hfalse
        stopped := fun _ _ => Or.inr htask
        selfExit := fun hfalse => absurd (hself.symm.trans hfalse) (by decide)
        busy := fun hbusy => absurd rfl hbusy
        cleanUp := fun hfalse => by cases hfalse
        sem := by
          rw [if_neg (by simp [close])]
          exact hsem }
  | exitSelf m q hidle htask hq =>
    have hsem := hi.sem
    rw [if_neg (by simp [htask])] at hsem
    exact
      { queue := rfl
        running := fun hfalse => by cases hfalse
        stopped := fun _ hfalse => by cases hfalse
        selfExit := fun _ => ⟨rfl, rfl, by
          change Returning s.task
          rw [htask]
          trivial⟩
        busy := fun hbusy => absurd hidle hbusy
        cleanUp := fun hcontrol => absurd (hidle.symm.trans hcontrol) (by decide)
        sem := by
          rw [if_neg (by simp [close])]
          exact hsem }
  | dispatch m pc => exact { hi with }
  | accept m q hidle hl hm hq =>
    exact
      { hi with
        queue := by simpa [RtosThread.accept, setDispatch] using hi.queue }
  | move pc hm => exact hi.move hm
  | throw m hl htask =>
    exact hi.run .faulted (by simp [htask]) (by simp [htask]) (by simp) (fun _ => trivial) rfl
      ⟨rfl, rfl, rfl, rfl, rfl, rfl⟩
  | get m rest htask hq =>
    refine hi.run (.got m) (by simp [htask]) (by simp [htask]) (by simp) ?_ (by simp [hq])
      ⟨rfl, rfl, rfl, rfl, rfl, rfl⟩
    intro hself
    have hret := (hi.selfExit hself).2.2
    rw [htask] at hret
    exact absurd hret id
  | invoke m d htask hd =>
    exact hi.run (.invoking d) (by simp [htask]) (by simp [htask]) (by simp)
      (fun _ => trivial) rfl ⟨rfl, rfl, rfl, rfl, rfl, rfl⟩
  | give htask =>
    rcases hi.created (by rw [htask]; exact ⟨by decide, id⟩) with ⟨hcreated, hself⟩
    have hcleanUp : s.control ≠ .cleanUp := by
      intro hcontrol
      have hended := hi.cleanUp hcontrol
      rw [htask] at hended
      cases hended
    have hsem := hi.sem
    rw [if_neg (by simp [htask])] at hsem
    exact
      { hi with
        running := fun _ hfalse => by cases hfalse
        stopped := fun _ _ => Or.inr rfl
        selfExit := fun hfalse => absurd (hself.symm.trans hfalse) (by decide)
        cleanUp := fun _ => rfl
        sem := by
          dsimp only
          rw [hsem, if_pos ⟨hcreated, rfl, hcleanUp⟩]
          cases p <;> rfl }

theorem life_of_reachable {ok : RtosThreadLabel → RtosThread → Prop}
    (hr : (rtosThreadLts p cfg).ReachableWhen ok s) : LifeInv s := by
  refine hr.induct (P := LifeInv) ?_ ?_
  · intro s hinit
    rw [show s = initial from hinit]
    exact .initial
  · intro l s _ hg _ hi
    exact hi.step (step_effect p cfg hg)

/-! ## The accounts -/

/-- The delegate message that the task holds and has not invoked. -/
def hand (s : RtosThread) : List DelegateMsg :=
  match s.task with
  | .got m => m.target.toList
  | _ => []

/-- The accounts of a state. -/
abbrev Accounts (s : RtosThread) : Prop :=
  Ledger s.dispatch s.accepted (s.removed.map Prod.fst) s.queued s.popped s.invoked s.hand

structure HistoryInv (s : RtosThread) : Prop where
  shape : ∀ m ∈ s.messages, m = .exit ∨ ∃ d, m = .delegate d
  ledger : Accounts s

theorem HistoryInv.initial : HistoryInv initial :=
  ⟨by simp [messages, RtosThread.initial], .nil _⟩

/-- Wherever the kernel puts the message. -/
theorem enqueue_perm (p : RtosPort) (m : ThreadMsg) (q : List ThreadMsg) :
    (p.enqueue m q).Perm (m :: q) := by
  unfold RtosPort.enqueue
  cases p with
  | threadX =>
    dsimp only
    split
    · exact .refl _
    · exact List.perm_append_singleton m q
  | zephyr => exact List.perm_append_singleton m q
  | cmsisRtos2 => exact List.perm_orderedInsert _ m q

theorem messages_of_queue {q : List ThreadMsg} (hq : s.queue = some q) : s.messages = q := by
  simp [messages, hq]

theorem messages_accept (m : DelegateMsg) {q : List ThreadMsg} (hq : s.queue = some q) :
    (s.accept p m).messages = p.enqueue (.delegate m) q := by
  simp [messages, accept, hq]

theorem queued_accept (m : DelegateMsg) {q : List ThreadMsg} (hq : s.queue = some q) :
    (s.accept p m).queued.Perm (s.queued ++ [m]) := by
  unfold queued
  rw [messages_accept m hq, messages_of_queue hq]
  exact ((enqueue_perm p _ q).filterMap _).trans (List.perm_append_singleton m _).symm

theorem queued_get {m : ThreadMsg} {rest : List ThreadMsg} (hq : s.queue = some (m :: rest)) :
    s.queued = m.data.toList ++ rest.filterMap (·.data) := by
  unfold queued
  rw [messages_of_queue hq]
  cases hd : m.data <;> simp [hd]

/-- The exit message is no delegate message. -/
theorem enqueue_exit (p : RtosPort) (q : List ThreadMsg) :
    (p.enqueue .exit q).filterMap (·.data) = q.filterMap (·.data) := by
  cases p with
  | threadX => simp [RtosPort.enqueue, ThreadMsg.getPriority]
  | zephyr => simp [RtosPort.enqueue]
  | cmsisRtos2 =>
    unfold RtosPort.enqueue
    dsimp only
    induction q with
    | nil => rfl
    | cons m q ih =>
      rw [List.orderedInsert_cons]
      split
      · rfl
      · cases hd : m.data with
        | none => rw [List.filterMap_cons_none hd, List.filterMap_cons_none hd, ih]
        | some d => rw [List.filterMap_cons_some hd, List.filterMap_cons_some hd, ih]

theorem queued_exitPut (s : RtosThread) : (s.exitPut p).queued = s.queued := by
  unfold queued messages exitPut
  cases hq : s.queue with
  | none => rfl
  | some q => exact enqueue_exit p q

theorem popped_close (s : RtosThread) : s.close.popped = s.popped := by
  simp [popped, close, List.filter_map, Function.comp_def]

theorem removed_close (s : RtosThread) :
    s.close.removed.map Prod.fst = s.removed.map Prod.fst ++ s.queued := by
  simp [close, Function.comp_def]

/-- A call in front of its return has put nothing. -/
theorem HistoryInv.fresh (hi : HistoryInv s) {m : DelegateMsg}
    (hm : s.dispatch m.id = .idle ∨ s.dispatch m.id = .waiting m) :
    ∀ x ∈ s.accepted, x.id ≠ m.id := by
  rcases hm with hm | hm
  · exact hi.ledger.fresh hm (by simp)
  · exact hi.ledger.fresh hm (by simp)

theorem HistoryInv.accept (hi : HistoryInv s) {m : DelegateMsg} {q : List ThreadMsg}
    (hm : s.dispatch m.id = .idle ∨ s.dispatch m.id = .waiting m) (hq : s.queue = some q) :
    HistoryInv (s.accept p m) := by
  refine ⟨?_, hi.ledger.accept (hi.fresh hm) (queued_accept m hq)⟩
  intro x hx
  rw [messages_accept m hq] at hx
  rcases List.mem_cons.mp ((enqueue_perm p _ q).subset hx) with rfl | hx
  · exact Or.inr ⟨m, rfl⟩
  · refine hi.shape x ?_
    rwa [messages_of_queue hq]

theorem HistoryInv.exitPut (hi : HistoryInv s) : HistoryInv (s.exitPut p) := by
  refine ⟨?_, ?_⟩
  swap
  · unfold Accounts
    rw [queued_exitPut]
    exact hi.ledger
  intro x hx
  cases hq : s.queue with
  | none => simp [messages, RtosThread.exitPut, hq] at hx
  | some q =>
    have hmem : x ∈ p.enqueue .exit q := by
      simpa [messages, RtosThread.exitPut, hq] using hx
    rcases List.mem_cons.mp ((enqueue_perm p _ q).subset hmem) with rfl | hmem
    · exact Or.inl rfl
    · refine hi.shape x ?_
      rwa [messages_of_queue hq]

/-- A message that leaves the queue. -/
theorem HistoryInv.get (hi : HistoryInv s) {m : ThreadMsg} {rest : List ThreadMsg}
    (htask : s.task = .receive) (hq : s.queue = some (m :: rest)) :
    HistoryInv { s with
      task := .got m
      queue := some rest
      removed := s.removed ++ m.data.toList.map (·, .popped) } := by
  have hmsgs := messages_of_queue hq
  constructor
  · intro x hx
    refine hi.shape x ?_
    rw [hmsgs]
    exact List.mem_cons_of_mem m hx
  · have hhand : s.hand = [] := by simp [hand, htask]
    have hpop := hi.ledger.pop (hi.shape m (by simp [hmsgs])) hhand (queued_get hq)
    have hremoved : (s.removed ++ m.data.toList.map (·, Removal.popped)).map Prod.fst =
        s.removed.map Prod.fst ++ m.data.toList := by simp [Function.comp_def]
    have hpopped : ((s.removed ++ m.data.toList.map (·, Removal.popped)).filter
        (·.2 = .popped)).map Prod.fst = s.popped ++ m.data.toList := by
      cases m.data <;> simp [RtosThread.popped]
    rw [← hremoved, ← hpopped] at hpop
    exact hpop

/-- What the queue holds is thrown away. -/
theorem HistoryInv.close (hi : HistoryInv s) (hhand : s.hand = []) : HistoryInv s.close := by
  refine ⟨by simp [messages, RtosThread.close], ?_⟩
  have hledger := hi.ledger.discard
  rw [hhand] at hledger
  have hhand' : s.close.hand = [] := hhand
  unfold Accounts
  rw [popped_close, removed_close, hhand']
  exact hledger

theorem TaskMove.hand {pc : RtosPc} (h : TaskMove s pc) :
    ({ s with task := pc } : RtosThread).hand = s.hand := by
  cases h <;> simp_all [RtosThread.hand]

theorem HistoryInv.step (h : Effect p cfg l s s') (hl : LifeInv s) (hi : HistoryInv s) :
    HistoryInv s' := by
  cases h with
  | stutter => exact hi
  | create watchdog hidle hcreated htask =>
    have hnone : s.queue = none := by
      have hq := hl.queue
      rw [hcreated] at hq
      simpa using hq
    have hhand : s.hand = [] := by
      rcases htask with htask | htask
      · simp [RtosThread.hand, htask]
      · simp [RtosThread.hand, htask]
    have hqueued : s.queued = [] := by simp [queued, messages, hnone]
    have hledger := hi.ledger
    unfold Accounts at hledger
    rw [hhand, hqueued] at hledger
    exact ⟨by simp [messages], hledger⟩
  | beginExit | acquire => exact ⟨hi.shape, hi.ledger⟩
  | put => exact hi.exitPut
  | cleanUp hcontrol =>
    have hhand : s.hand = [] := by simp [RtosThread.hand, hl.cleanUp hcontrol]
    have hclosed := hi.close hhand
    exact ⟨hclosed.shape, hclosed.ledger⟩
  | exitSelf m q hidle htask =>
    have hhand : s.hand = [] := by simp [RtosThread.hand, htask]
    have hclosed := hi.close hhand
    exact ⟨hclosed.shape, hclosed.ledger⟩
  | dispatch m pc hidle hm => exact ⟨hi.shape, hi.ledger.move (hi.fresh hm) pc⟩
  | accept m q hidle hlab hm hq => exact hi.accept hm hq
  | move pc hm =>
    refine ⟨hi.shape, ?_⟩
    unfold Accounts
    rw [hm.hand]
    exact hi.ledger
  | throw m hlab htask =>
    have hhand : s.hand = [] := by simp [RtosThread.hand, htask]
    have hledger := hi.ledger
    unfold Accounts at hledger
    rw [hhand] at hledger
    exact ⟨hi.shape, hledger⟩
  | get m rest htask hq => exact hi.get htask hq
  | invoke m d htask hd =>
    have hhand : s.hand = [d] := by simp [RtosThread.hand, htask, hd]
    exact ⟨hi.shape, hi.ledger.invoke hhand⟩
  | give htask =>
    have hhand : s.hand = [] := by simp [RtosThread.hand, htask]
    have hledger := hi.ledger
    unfold Accounts at hledger
    rw [hhand] at hledger
    exact ⟨hi.shape, hledger⟩

theorem history_of_reachable {ok : RtosThreadLabel → RtosThread → Prop}
    (hr : (rtosThreadLts p cfg).ReachableWhen ok s) : HistoryInv s := by
  refine hr.induct (P := HistoryInv) ?_ ?_
  · intro s hinit
    rw [show s = RtosThread.initial from hinit]
    exact .initial
  · intro l s hr hg _ hi
    exact hi.step (step_effect p cfg hg) (life_of_reachable hr)

end RtosThread

end AsyncSqlite
