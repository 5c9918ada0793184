import Mathlib.Order.Basic
import AsyncSqlite.Lts.PriorityQueue
import AsyncSqlite.Port.FreeRtosHistory

/-!
# AsyncSqlite.Port.Priority — the ports as one priority queue

The stdlib `Thread` keeps two deques and the FreeRTOS `Thread` one queue. Seen
through what is outstanding, the first is a priority queue in every run
(`stdlib_refines`). The second is one as long as no message of high priority is
sent while another is queued (`freeRtos_refines`): `xQueueSendToFront` puts the
newer one in front of the older (`highs_reversed`).
-/

namespace AsyncSqlite

def Priority.rank : Priority → ℕ
  | .normal => 0
  | .high => 1

instance : Preorder Priority := Preorder.lift Priority.rank

theorem Priority.le_high (p : Priority) : p ≤ .high := by
  cases p with
  | normal => exact Nat.zero_le 1
  | high => exact le_refl _

theorem Priority.not_high_le_normal : ¬ Priority.high ≤ .normal := Nat.not_succ_le_zero 0

/-- What a port has accepted and what has left its queues. -/
def toQueue (accepted popped : List DelegateMsg) (removed : List (DelegateMsg × Removal)) :
    PriorityQueue DelegateMsg :=
  ⟨outstanding accepted (removed.map Prod.fst), accepted, popped⟩

section Steps

variable {accepted popped : List DelegateMsg} {removed : List (DelegateMsg × Removal)}
  {m : DelegateMsg}

theorem toQueue_accept (hm : m ∉ removed.map Prod.fst) :
    toQueue (accepted ++ [m]) popped removed =
      (priorityLts DelegateMsg.priority).update (.accept m) (toQueue accepted popped removed) := by
  simp [toQueue, priorityLts, outstanding_accept hm]

theorem toQueue_dequeue (hn : accepted.Nodup) (tag : Removal) :
    toQueue accepted (popped ++ [m]) (removed ++ [(m, tag)]) =
      (priorityLts DelegateMsg.priority).update (.dequeue m) (toQueue accepted popped removed) := by
  simp [toQueue, priorityLts, ← outstanding_remove hn]

theorem toQueue_discard {removed' : List (DelegateMsg × Removal)}
    (hall : ∀ m ∈ accepted, m ∈ removed'.map Prod.fst) :
    toQueue accepted popped removed' =
      (priorityLts DelegateMsg.priority).update .discard (toQueue accepted popped removed) := by
  simp [toQueue, priorityLts, outstanding_eq_nil hall]

end Steps

/-! ## stdlib -/

namespace ThreadState

variable {cfg : Config} {l : ThreadLabel} {s s' : ThreadState}

def toQueue (s : ThreadState) : PriorityQueue DelegateMsg :=
  AsyncSqlite.toQueue s.pushed s.popped s.removed

theorem pushed_nodup (hi : HistoryInv s) : s.pushed.Nodup := hi.nodup.of_map _

/-- The deque of a priority holds what is outstanding in it. -/
theorem ofClass_pending (hi : HistoryInv s) (p : Priority) :
    ofClass DelegateMsg.priority p s.toQueue.pending = s.queued p :=
  hi.fifo.outstanding (pushed_nodup hi) p

/-- The head of the high deque. -/
theorem isNext_high (hi : HistoryInv s) {m : DelegateMsg} {rest : List DelegateMsg}
    (hq : s.queued .high = m :: rest) : IsNext DelegateMsg.priority s.toQueue.pending m := by
  have hm : m.priority = .high := by
    have hmem : m ∈ s.queued .high := by simp [hq]
    exact (hi.fifo.mem_of_queue hmem).2
  have hhead : ofClass DelegateMsg.priority m.priority s.toQueue.pending = m :: rest := by
    rw [hm, ofClass_pending hi, hq]
  refine isNext_of_ofClass hhead fun b _ => ?_
  rw [hm]
  exact b.priority.le_high

/-- The head of the normal deque, while the other one is empty. -/
theorem isNext_normal (hi : HistoryInv s) {m : DelegateMsg} {rest : List DelegateMsg}
    (hhigh : s.queued .high = []) (hq : s.queued .normal = m :: rest) :
    IsNext DelegateMsg.priority s.toQueue.pending m := by
  have hm : m.priority = .normal := by
    have hmem : m ∈ s.queued .normal := by simp [hq]
    exact (hi.fifo.mem_of_queue hmem).2
  have hhead : ofClass DelegateMsg.priority m.priority s.toQueue.pending = m :: rest := by
    rw [hm, ofClass_pending hi, hq]
  refine isNext_of_ofClass hhead fun b hb => ?_
  rw [hm]
  cases hbp : b.priority with
  | normal => exact le_refl _
  | high =>
    have hmem := (mem_ofClass DelegateMsg.priority).mpr ⟨hb, hbp⟩
    rw [ofClass_pending hi, hhigh] at hmem
    exact absurd hmem List.not_mem_nil

theorem pop_refines (hi : HistoryInv s) {w : ℕ} {m : ThreadMsg}
    (hnext : ∀ d, m.data = some d → IsNext DelegateMsg.priority s.toQueue.pending d)
    (hs' : s'.toQueue = (s.take w m).toQueue) :
    s'.toQueue = s.toQueue ∨ ∃ k, (priorityLts DelegateMsg.priority).guard k s.toQueue ∧
      s'.toQueue = (priorityLts DelegateMsg.priority).update k s.toQueue := by
  rw [hs']
  cases hd : m.data with
  | none =>
    left
    unfold toQueue
    rw [popped_take]
    simp [take, hd, setPc, setWorker]
  | some d =>
    right
    refine ⟨.dequeue d, hnext d hd, ?_⟩
    unfold toQueue
    rw [popped_take]
    simp only [take, hd]
    exact toQueue_dequeue (pushed_nodup hi) .popped

theorem stdlib_refines (cfg : Config) :
    (threadLts cfg).RefinesWhen Lts.always toQueue (priorityLts DelegateMsg.priority) where
  init := by
    rintro s rfl
    rfl
  step := by
    intro l s hr hg _
    have hi := history_of_reachable hr
    have hq := queue_of_reachable hr
    have heff : Effect cfg l s ((threadLts cfg).update l s) := step_effect cfg hg
    generalize (threadLts cfg).update l s = s' at heff
    cases heff with
    -- a message is accepted once, so it has not been removed before
    | accept m hm =>
      right
      refine ⟨.accept m, trivial, ?_⟩
      refine toQueue_accept fun hrem => ?_
      have hmem := hi.fifo.mem_of_removed hrem
      exact hi.fresh_of_accept hm m hmem rfl
    | popHigh w m rest hw hhigh =>
      refine pop_refines (w := w) (m := m) hi (fun d hd => ?_) rfl
      have hqueue : s.queued .high = d :: rest.filterMap (·.data) := by
        simp [queued, hhigh, hd]
      exact isNext_high hi hqueue
    -- taken only when the high queue is empty
    | popNormal w m rest hw hhigh hnormal =>
      refine pop_refines (w := w) (m := m) hi (fun d hd => ?_) rfl
      have hqueue : s.queued .normal = d :: rest.filterMap (·.data) := by
        simp [queued, hnormal, hd]
      exact isNext_normal hi (by simp [queued, hhigh]) hqueue
    -- `ExitThread` clears both queues: what was outstanding is removed
    | reset t =>
      right
      refine ⟨.discard, trivial, ?_⟩
      have hp : s.exitReset.popped = s.popped := by
        simp [popped, exitReset, List.filter_map, Function.comp_def]
      have hall : ∀ m ∈ s.pushed, m ∈ s.exitReset.removed.map Prod.fst := by
        intro m hm
        have hmem := hi.perm.subset hm
        simpa [exitReset, Function.comp_def] using hmem
      unfold toQueue
      rw [hp]
      exact toQueue_discard hall
    | _ => exact Or.inl rfl

/-- Equal priorities are invoked in the order of acceptance. -/
theorem invoked_fifo (hr : (threadLts cfg).Reachable s) (p : Priority) :
    (ofClass DelegateMsg.priority p s.invoked).Sublist
      (ofClass DelegateMsg.priority p s.pushed) := by
  have hi := history_of_reachable hr
  have hsub : s.invoked.Sublist s.popped := by
    have hpre : s.invoked.Sublist (s.popped.filter (·.invoker)) := by
      rw [hi.popped]
      exact List.sublist_append_left _ _
    exact hpre.trans List.filter_sublist
  exact (hsub.filter _).trans (PriorityQueue.fifo ((stdlib_refines cfg).reachable hr) p)

end ThreadState

/-! ## FreeRTOS -/

namespace FreeRtosThread

variable {cfg : Config} {l : RtosLabel} {s s' : FreeRtosThread}

def toQueue (s : FreeRtosThread) : PriorityQueue DelegateMsg :=
  AsyncSqlite.toQueue s.accepted s.popped s.removed

/-- A send of high priority that succeeds finds no other such message in the
queue. -/
def OneHigh (cfg : Config) (l : RtosLabel) (s : FreeRtosThread) : Prop :=
  match l with
  | .dispatchDelegate m | .dispatchSend m =>
    m.priority = .high → s.hasSpace cfg → ∀ d ∈ s.queued, d.priority ≠ .high
  | _ => True

instance (cfg : Config) (l : RtosLabel) (s : FreeRtosThread) : Decidable (OneHigh cfg l s) := by
  induction l using RtosLabel.casesOn <;> dsimp only [OneHigh] <;> infer_instance

/-- The queue holds what is outstanding: high priority first, each priority in
the order of acceptance. -/
def OrderInv (s : FreeRtosThread) : Prop :=
  s.queued = ofClass DelegateMsg.priority .high s.toQueue.pending ++
    ofClass DelegateMsg.priority .normal s.toQueue.pending

theorem accepted_nodup (hi : HistoryInv s) : s.accepted.Nodup := hi.ledger.nodup.of_map _

theorem accept_refines (hi : HistoryInv s) {m : DelegateMsg}
    (hm : s.dispatch m.id = .idle ∨ s.dispatch m.id = .waiting m) :
    (s.accept m).toQueue = (priorityLts DelegateMsg.priority).update (.accept m) s.toQueue := by
  refine toQueue_accept fun hrem => ?_
  have hmem := hi.ledger.perm.symm.subset (List.mem_append_left _ hrem)
  exact hi.fresh hm m hmem rfl

/-- The head of the queue is the oldest message of the highest priority. -/
theorem OrderInv.isNext (h : OrderInv s) {m : DelegateMsg} {rest : List DelegateMsg}
    (hq : s.queued = m :: rest) : IsNext DelegateMsg.priority s.toQueue.pending m := by
  unfold OrderInv at h
  rw [hq] at h
  cases hhigh : ofClass DelegateMsg.priority .high s.toQueue.pending with
  -- a message of high priority is in front
  | cons a as =>
    rw [hhigh] at h
    have hma : m = a := (List.cons.inj h).1
    subst hma
    have hm : m.priority = .high := by
      have hmem : m ∈ ofClass DelegateMsg.priority .high s.toQueue.pending := by simp [hhigh]
      exact ((mem_ofClass _).mp hmem).2
    rw [← hm] at hhigh
    refine isNext_of_ofClass hhigh fun b _ => ?_
    rw [hm]
    exact b.priority.le_high
  -- no message of high priority is outstanding
  | nil =>
    rw [hhigh, List.nil_append] at h
    have hm : m.priority = .normal := by
      have hmem : m ∈ ofClass DelegateMsg.priority .normal s.toQueue.pending := by simp [← h]
      exact ((mem_ofClass _).mp hmem).2
    have hhead : ofClass DelegateMsg.priority m.priority s.toQueue.pending = m :: rest := by
      rw [hm, ← h]
    refine isNext_of_ofClass hhead fun b hb => ?_
    rw [hm]
    cases hbp : b.priority with
    | normal => exact le_refl _
    | high =>
      have hmem := (mem_ofClass DelegateMsg.priority).mpr ⟨hb, hbp⟩
      rw [hhigh] at hmem
      exact absurd hmem List.not_mem_nil

/-- A step that neither accepts nor takes a message. -/
theorem OrderInv.keep (h : OrderInv s) (hq : s'.queued = s.queued) (hf : s'.toQueue = s.toQueue) :
    OrderInv s' := by
  unfold OrderInv
  rw [hq, hf]
  exact h

theorem OrderInv.accept (h : OrderInv s) (hi : HistoryInv s) {m : DelegateMsg} {q : List ThreadMsg}
    (hm : s.dispatch m.id = .idle ∨ s.dispatch m.id = .waiting m) (hq : s.queue = some q)
    (hone : m.priority = .high → ∀ d ∈ s.queued, d.priority ≠ .high) : OrderInv (s.accept m) := by
  have hpending : (s.accept m).toQueue.pending = s.toQueue.pending ++ [m] := by
    rw [accept_refines hi hm]
    rfl
  unfold OrderInv at h ⊢
  rw [queued_accept m hq, hpending, ofClass_append, ofClass_append, ofClass_singleton,
    ofClass_singleton]
  cases hp : m.priority with
  -- put in front, it is the only one of its priority
  | high =>
    have hnone : ofClass DelegateMsg.priority .high s.toQueue.pending = [] := by
      refine List.eq_nil_iff_forall_not_mem.mpr fun d hd => ?_
      have hmem : d ∈ s.queued := by
        rw [h]
        exact List.mem_append_left _ hd
      exact hone hp d hmem ((mem_ofClass _).mp hd).2
    rw [hnone] at h ⊢
    simpa using h
  | normal => simp [h]

/-- Taking the head of the queue. -/
theorem OrderInv.pop (h : OrderInv s) {m : DelegateMsg} {rest : List DelegateMsg}
    (hq : s.queued = m :: rest) (hq' : s'.queued = rest)
    (hf : s'.toQueue.pending = s.toQueue.pending.erase m) : OrderInv s' := by
  have hnext := h.isNext hq
  have hhigh := PriorityQueue.ofClass_erase hnext .high
  have hnormal := PriorityQueue.ofClass_erase hnext .normal
  unfold OrderInv at h ⊢
  rw [hq, ← hhigh, ← hnormal, ofClass_singleton, ofClass_singleton] at h
  rw [hq', hf]
  cases hp : m.priority with
  | high =>
    simp only [hp] at h
    simpa using h
  | normal =>
    -- a normal head means that no high message is outstanding
    have hnone : ofClass DelegateMsg.priority .high (s.toQueue.pending.erase m) = [] := by
      refine List.eq_nil_iff_forall_not_mem.mpr fun d hd => ?_
      rcases (mem_ofClass _).mp hd with ⟨hd, hdp⟩
      have hle := hnext.1 d (List.mem_of_mem_erase hd)
      rw [hp, hdp] at hle
      exact absurd hle Priority.not_high_le_normal
    simp only [hp] at h
    rw [hnone] at h ⊢
    simpa using h

theorem OrderInv.step (h : Effect cfg l s s') (hok : OneHigh cfg l s) (hi : HistoryInv s)
    (ho : OrderInv s) :
    OrderInv s' ∧ (s'.toQueue = s.toQueue ∨
      ∃ k, (priorityLts DelegateMsg.priority).guard k s.toQueue ∧
        s'.toQueue = (priorityLts DelegateMsg.priority).update k s.toQueue) := by
  cases h with
  | sendExit => exact ⟨ho.keep (queued_exitSend s) rfl, Or.inl rfl⟩
  | accept m q hex hlab hm hq hspace =>
    refine ⟨ho.accept hi hm hq fun hp => ?_, Or.inr ⟨.accept m, trivial, accept_refines hi hm⟩⟩
    rcases hlab with rfl | rfl
    · exact hok hp hspace
    · exact hok hp hspace
  | pop m rest htask hq =>
    have hqueued := queued_pop hq
    cases hd : m.data with
    | none =>
      -- the exit message is none of the abstract queue's
      have hsame : ({ s with
          task := .got m
          queue := some rest
          removed := s.removed ++ (none : Option DelegateMsg).toList.map (·, Removal.popped) } :
          FreeRtosThread).toQueue = s.toQueue := by simp [toQueue, FreeRtosThread.popped]
      rw [hd] at hqueued
      exact ⟨ho.keep hqueued.symm hsame, Or.inl hsame⟩
    | some d =>
      rw [hd] at hqueued
      have hf : ({ s with
          task := .got m
          queue := some rest
          removed := s.removed ++ (some d).toList.map (·, Removal.popped) } :
          FreeRtosThread).toQueue =
            (priorityLts DelegateMsg.priority).update (.dequeue d) s.toQueue := by
        unfold toQueue
        rw [← toQueue_dequeue (accepted_nodup hi) .popped]
        simp [FreeRtosThread.popped]
      refine ⟨ho.pop hqueued rfl (by rw [hf]; rfl), Or.inr ⟨.dequeue d, ho.isNext hqueued, hf⟩⟩
  | drain =>
    -- nothing that was accepted is outstanding after the drain
    have hall : ∀ m ∈ s.accepted, m ∈ s.exitDrain.removed.map Prod.fst := by
      intro m hm
      rw [removed_exitDrain]
      exact hi.ledger.perm.subset hm
    have hf : s.exitDrain.toQueue =
        (priorityLts DelegateMsg.priority).update .discard s.toQueue := by
      unfold toQueue
      rw [popped_exitDrain]
      exact toQueue_discard hall
    refine ⟨?_, Or.inr ⟨.discard, trivial, hf⟩⟩
    unfold OrderInv
    rw [hf]
    rfl
  | _ => exact ⟨ho.keep rfl rfl, Or.inl rfl⟩

theorem order_of_reachable (hr : (freeRtosLts cfg).ReachableWhen (OneHigh cfg) s) : OrderInv s := by
  refine hr.induct (P := OrderInv) ?_ ?_
  · rintro s rfl
    rfl
  · intro l s hr hg hok ho
    exact (ho.step (step_effect cfg hg) hok (history_of_reachable hr)).1

theorem freeRtos_refines (cfg : Config) :
    (freeRtosLts cfg).RefinesWhen (OneHigh cfg) toQueue (priorityLts DelegateMsg.priority) where
  init := by
    rintro s rfl
    rfl
  step := by
    intro l s hr hg hok
    exact ((order_of_reachable hr).step (step_effect cfg hg) hok (history_of_reachable hr)).2

theorem invoked_fifo (hr : (freeRtosLts cfg).ReachableWhen (OneHigh cfg) s) (p : Priority) :
    (ofClass DelegateMsg.priority p s.invoked).Sublist
      (ofClass DelegateMsg.priority p s.accepted) := by
  have hsub := (history_of_reachable hr).ledger.invoked_sublist
  exact (hsub.filter _).trans (PriorityQueue.fifo ((freeRtos_refines cfg).reachable hr) p)

end FreeRtosThread

/-! ## Both ports -/

/-- Both ports refine one priority queue: every dequeue yields the oldest
accepted message of the highest priority present, and messages of equal
priority are invoked in the order of their acceptance. For the stdlib port this
is so in every run, for the FreeRTOS port in the runs in which no message of
high priority is sent while another is queued. -/
theorem ports_refine_priority_queue (cfg : Config) :
    ((threadLts cfg).RefinesWhen Lts.always ThreadState.toQueue
        (priorityLts DelegateMsg.priority) ∧
      (∀ l s m, (threadLts cfg).Reachable s → ThreadState.guard l s →
        (ThreadState.update cfg l s).popped = s.popped ++ [m] →
        IsNext DelegateMsg.priority (outstanding s.pushed (s.removed.map Prod.fst)) m) ∧
      ∀ s, (threadLts cfg).Reachable s → ∀ p,
        (ofClass DelegateMsg.priority p s.invoked).Sublist
          (ofClass DelegateMsg.priority p s.pushed)) ∧
    (freeRtosLts cfg).RefinesWhen (FreeRtosThread.OneHigh cfg) FreeRtosThread.toQueue
        (priorityLts DelegateMsg.priority) ∧
      (∀ l s m, (freeRtosLts cfg).ReachableWhen (FreeRtosThread.OneHigh cfg) s →
        FreeRtosThread.guard cfg l s → FreeRtosThread.OneHigh cfg l s →
        (FreeRtosThread.update cfg l s).popped = s.popped ++ [m] →
        IsNext DelegateMsg.priority (outstanding s.accepted (s.removed.map Prod.fst)) m) ∧
      ∀ s, (freeRtosLts cfg).ReachableWhen (FreeRtosThread.OneHigh cfg) s → ∀ p,
        (ofClass DelegateMsg.priority p s.invoked).Sublist
          (ofClass DelegateMsg.priority p s.accepted) := by
  refine ⟨⟨ThreadState.stdlib_refines cfg, ?_, ?_⟩, FreeRtosThread.freeRtos_refines cfg, ?_, ?_⟩
  · intro l s m hr hg hpop
    exact (ThreadState.stdlib_refines cfg).taken_next hr hg trivial hpop
  · intro s hr p
    exact ThreadState.invoked_fifo hr p
  · intro l s m hr hg hok hpop
    exact (FreeRtosThread.freeRtos_refines cfg).taken_next hr hg hok hpop
  · intro s hr p
    exact FreeRtosThread.invoked_fifo hr p

/-- A message of high priority and one of normal priority before it. -/
def mixedRun : List RtosLabel :=
  [.createThread, .createTask, .dispatchDelegate ⟨0, true, .normal⟩,
    .dispatchDelegate ⟨1, true, .high⟩, .runLoop, .runReceive, .runMsg (.delegate ⟨1, true, .high⟩),
    .invokeReturn ⟨1, true, .high⟩, .dispatchDelegate ⟨2, true, .high⟩, .runLoop]

theorem ports_refine_priority_queue_run :
    ∃ s, (freeRtosLts ⟨0, .drop⟩).ReachableWhen (FreeRtosThread.OneHigh ⟨0, .drop⟩) s ∧
      s.invoked = [⟨1, true, .high⟩] ∧ s.receive.popped = s.popped ++ [⟨2, true, .high⟩] ∧
      IsNext DelegateMsg.priority (outstanding s.accepted (s.removed.map Prod.fst))
        ⟨2, true, .high⟩ := by
  obtain ⟨s, hr, hp⟩ := (freeRtosLts ⟨0, .drop⟩).execWhen_reachable
    (FreeRtosThread.OneHigh ⟨0, .drop⟩) rfl mixedRun
    (fun s => s.invoked = [⟨1, true, .high⟩] ∧ s.task = .receive ∧ s.messages ≠ [] ∧
      s.receive.popped = s.popped ++ [⟨2, true, .high⟩]) (by decide)
  obtain ⟨hinv, htask, hne, hpop⟩ : _ ∧ _ ∧ _ ∧ _ := of_decide_eq_true hp
  exact ⟨s, hr, hinv, hpop, (ports_refine_priority_queue ⟨0, .drop⟩).2.2.1 .runReceive s _ hr
    ⟨htask, hne⟩ trivial hpop⟩

/-- Two messages of high priority are sent before a receive. -/
def highsRun : List RtosLabel :=
  [.createThread, .createTask, .dispatchDelegate ⟨0, true, .high⟩,
    .dispatchDelegate ⟨1, true, .high⟩, .runLoop]

def drainHighsRun : List RtosLabel :=
  [.runReceive, .runMsg (.delegate ⟨1, true, .high⟩), .invokeReturn ⟨1, true, .high⟩, .runLoop,
    .runReceive, .runMsg (.delegate ⟨0, true, .high⟩)]

/-- The FreeRTOS port receives the newer of two messages of high priority
first. -/
theorem highs_reversed :
    ∃ s s', (freeRtosLts ⟨0, .drop⟩).Reachable s ∧
      FreeRtosThread.guard ⟨0, .drop⟩ .runReceive s ∧
      s.receive.popped = s.popped ++ [⟨1, true, .high⟩] ∧
      ¬ IsNext DelegateMsg.priority (outstanding s.accepted (s.removed.map Prod.fst))
        ⟨1, true, .high⟩ ∧
      (freeRtosLts ⟨0, .drop⟩).Run s drainHighsRun s' ∧
      s'.accepted = [⟨0, true, .high⟩, ⟨1, true, .high⟩] ∧
      s'.invoked = [⟨1, true, .high⟩, ⟨0, true, .high⟩] := by
  obtain ⟨s, hr, hp⟩ := (freeRtosLts ⟨0, .drop⟩).execWhen_reachable Lts.always rfl highsRun
    (fun s => FreeRtosThread.guard ⟨0, .drop⟩ .runReceive s ∧
      s.receive.popped = s.popped ++ [⟨1, true, .high⟩] ∧
      outstanding s.accepted (s.removed.map Prod.fst) = [⟨0, true, .high⟩, ⟨1, true, .high⟩] ∧
      (((freeRtosLts ⟨0, .drop⟩).execWhen Lts.always s drainHighsRun).any fun s' =>
        s'.accepted = [⟨0, true, .high⟩, ⟨1, true, .high⟩] ∧
        s'.invoked = [⟨1, true, .high⟩, ⟨0, true, .high⟩]) = true) (by decide)
  obtain ⟨hg, hpop, hpending, hp⟩ : _ ∧ _ ∧ _ ∧ _ := of_decide_eq_true hp
  obtain ⟨s', hrun, hp'⟩ := (freeRtosLts ⟨0, .drop⟩).exec_labelled s drainHighsRun _ hp
  obtain ⟨hacc, hinv⟩ : _ ∧ _ := of_decide_eq_true hp'
  refine ⟨s, s', hr, hg, hpop, ?_, hrun, hacc, hinv⟩
  rw [hpending]
  rintro ⟨-, front, back, heq, hfront⟩
  cases front with
  | nil => cases heq
  | cons a front =>
    -- the older message has the same priority
    have ha : a = ⟨0, true, .high⟩ := (List.cons.inj heq).1.symm
    exact hfront a List.mem_cons_self (by rw [ha])

end AsyncSqlite
