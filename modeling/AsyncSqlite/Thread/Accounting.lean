import AsyncSqlite.Thread.Queue

/-!
# AsyncSqlite.Thread.Accounting — every message is accounted for

The histories of a `Thread` tie its three ends together:

* a message is in `pushed` exactly if its `DispatchDelegate` returned true, and
  it is pushed once;
* priority by priority, `pushed` is `removed` followed by what is queued
  (`ClassFifo`);
* what was popped with an invoker is what was invoked, and the message that the
  worker holds.
-/

namespace AsyncSqlite

namespace ThreadState

variable {cfg : Config} {l : ThreadLabel} {s s' : ThreadState}

/-! ## The message in the worker's hand -/

/-- The message that a worker holds and has not begun to invoke. -/
def inHand : WorkerPc → List DelegateMsg
  | .got m => m.target.toList
  | _ => []

/-- The message in the hand of the worker that `m_thread` names. -/
def hand (s : ThreadState) : List DelegateMsg :=
  match s.thread with
  | some (some h) => inHand (s.worker h).pc
  | _ => []

theorem hand_of_thread {h : ℕ} (hth : s.thread = some (some h)) :
    s.hand = inHand (s.worker h).pc := by
  simp only [hand, hth]

/-- The same thread whose worker holds the same message. -/
theorem hand_congr (hth : s'.thread = s.thread)
    (hpc : ∀ h, s.thread = some (some h) → inHand (s'.worker h).pc = inHand (s.worker h).pc) :
    s'.hand = s.hand := by
  unfold hand
  rw [hth]
  split
  · rename_i h heq
    exact hpc h heq
  · rfl

theorem inHand_notifyOne (f : ℕ → Worker) (w : ℕ) :
    inHand (notifyOne f w).pc = inHand (f w).pc := by
  rw [notifyOne_pc]
  split
  · rename_i hw
    rw [hw]
    rfl
  · rfl

theorem WorkerMove.inHand {w : ℕ} {pc : WorkerPc} (h : WorkerMove l s w pc) :
    inHand (s.worker w).pc = [] ∧ ThreadState.inHand pc = [] := by
  cases h <;> simp_all [ThreadState.inHand]

/-- The target of a popped queue entry. -/
theorem data_filter {m : ThreadMsg} (hm : (∃ p, IsDelegate p m) ∨ m = .exit) :
    m.data.toList.filter (·.invoker) = m.target.toList := by
  rcases hm with ⟨p, d, rfl, -⟩ | rfl
  · by_cases hd : d.invoker = true <;> simp [ThreadMsg.target, hd]
  · rfl

/-! ## The queues by priority -/

theorem queued_push_delegate (s : ThreadState) (d : DelegateMsg) (p : Priority) :
    (s.push (.delegate d)).queued p = s.queued p ++ ofClass DelegateMsg.priority p [d] := by
  cases hd : d.priority <;> cases p <;>
    simp [push, queued, ofClass_singleton, ThreadMsg.getPriority, hd]

theorem queued_push_exit (s : ThreadState) (p : Priority) :
    (s.push .exit).queued p = s.queued p := by
  cases p <;> simp [push, queued, ThreadMsg.getPriority]

/-- Popping from the high queue. -/
theorem queued_pop_high {m : ThreadMsg} {rest : List ThreadMsg} (hq : s.highQueue = m :: rest)
    (hm : IsDelegate .high m) (hhigh : s'.highQueue = rest)
    (hnormal : s'.normalQueue = s.normalQueue) (p : Priority) :
    s.queued p = ofClass DelegateMsg.priority p m.data.toList ++ s'.queued p := by
  rcases hm with ⟨d, rfl, hd⟩
  cases p <;> simp [queued, hq, hhigh, hnormal, ofClass_singleton, hd]

/-- Popping from the normal queue. -/
theorem queued_pop_normal {m : ThreadMsg} {rest : List ThreadMsg}
    (hq : s.normalQueue = m :: rest) (hm : IsDelegate .normal m ∨ m = .exit)
    (hnormal : s'.normalQueue = rest) (hhigh : s'.highQueue = s.highQueue) (p : Priority) :
    s.queued p = ofClass DelegateMsg.priority p m.data.toList ++ s'.queued p := by
  rcases hm with ⟨d, rfl, hd⟩ | rfl
  · cases p <;> simp [queued, hq, hhigh, hnormal, ofClass_singleton, hd]
  · cases p <;> simp [queued, hq, hhigh, hnormal, ofClass]

/-! ## The histories of one step -/

/-- Only the `switch` of `Process` enters a handler. -/
theorem invoking_of_step (h : Effect cfg l s s') {w : ℕ} {m : DelegateMsg}
    (hw' : (s'.worker w).pc = .invoking m) :
    (s.worker w).pc = .invoking m ∨
      ∃ x, l = .processSwitch w x ∧ (s.worker w).pc = .got x ∧ x.target = some m ∧
        s' = s.invoke w m := by
  have hmove := pc_of_step h w
  rw [hw'] at hmove
  cases hmove with
  | keep hw => exact Or.inl hw
  | move hm => cases hm
  | invoke hlab hw hx heq => exact Or.inr ⟨_, hlab, hw, hx, heq⟩

/-- Only entering a handler is recorded in `invoked`. -/
theorem invoked_of_step (h : Effect cfg l s s') :
    s'.invoked = s.invoked ∨
      ∃ w x m, l = .processSwitch w x ∧ (s.worker w).pc = .got x ∧ x.target = some m ∧
        s' = s.invoke w m := by
  cases h with
  | invoke w x m hlab hw hx => exact Or.inr ⟨w, x, m, hlab, hw, hx, rfl⟩
  | _ => exact Or.inl rfl

/-- Only an accepted `DispatchDelegate` is recorded in `pushed`. -/
theorem pushed_of_step (h : Effect cfg l s s') :
    s'.pushed = s.pushed ∨
      ∃ m, (s.dispatch m.id = .checked m ∨ s.dispatch m.id = .waiting m) ∧ s.exit = false ∧
        s' = s.accept m := by
  cases h with
  | accept m hm hexit => exact Or.inr ⟨m, hm, hexit, rfl⟩
  | _ => exact Or.inl rfl

/-- A worker that exited itself stays so. -/
theorem selfExit_of_step (h : Effect cfg l s s') {w : ℕ} (hstart : (s.worker w).pc ≠ .notStarted)
    (hl : LifeInv s) (hse : (s.worker w).selfExit = true) : (s'.worker w).selfExit = true := by
  cases h with
  | stutter | beginCreate | clearExit | started | beginExit | join | unjoinable | dispatch
  | reset => exact hse
  | spawn =>
    have hne : w ≠ s.spawned := by
      intro heq
      exact hstart (by rw [hl.fresh w heq.ge])
    simpa [ThreadState.spawn, setWorker, hne] using hse
  | detach h => exact detach_selfExit s h w hse
  | pushExit | accept => exact (notifyOne_selfExit s.worker w).trans hse
  | move v pc => exact (setPc_selfExit s v w pc).trans hse
  | popHigh v m | popNormal v m => exact (setPc_selfExit s v w (.got m)).trans hse
  | invoke v m d => exact (setPc_selfExit s v w (.invoking d)).trans hse

/-! ## The invariant -/

structure HistoryInv (s : ThreadState) : Prop where
  /-- one FIFO per priority -/
  fifo : ClassFifo DelegateMsg.priority s.pushed (s.removed.map Prod.fst) s.queued
  /-- pushed exactly if `DispatchDelegate` returned true -/
  mem_pushed : ∀ m, m ∈ s.pushed ↔ s.dispatch m.id = .returned m true
  nodup : (s.pushed.map (·.id)).Nodup
  /-- what was popped was invoked or is in the worker's hand -/
  popped : s.popped.filter (·.invoker) = s.invoked ++ s.hand

theorem HistoryInv.initial : HistoryInv initial where
  fifo := .nil fun p => by cases p <;> rfl
  mem_pushed := by simp [ThreadState.initial]
  nodup := by simp [ThreadState.initial]
  popped := rfl

theorem popped_take (s : ThreadState) (w : ℕ) (m : ThreadMsg) :
    (s.take w m).popped = s.popped ++ m.data.toList := by
  cases h : m.data <;> simp [take, ThreadState.popped, h]

theorem popped_sublist (s : ThreadState) : s.popped.Sublist (s.removed.map Prod.fst) :=
  List.filter_sublist.map Prod.fst

/-- Where nothing is tagged as cleared, everything that left was popped. -/
theorem map_popped_of_cleared {removed : List (DelegateMsg × Removal)}
    (hc : (removed.filter (·.2 = .cleared)).map (·.1) = []) :
    (removed.filter (·.2 = .popped)).map (·.1) = removed.map Prod.fst := by
  have hall : ∀ x ∈ removed, x.2 = .popped := by
    intro x hx
    cases htag : x.2 with
    | popped => rfl
    | cleared =>
      have hmem : x.1 ∈ (removed.filter (·.2 = .cleared)).map (·.1) :=
        List.mem_map_of_mem (List.mem_filter.mpr ⟨hx, by simp [htag]⟩)
      rw [hc] at hmem
      cases hmem
  rw [List.filter_eq_self.mpr fun x hx => by simp [hall x hx]]

/-- Where no exit has cleared anything, everything that left was popped. -/
theorem popped_of_cleared (hc : s.cleared = []) : s.popped = s.removed.map Prod.fst :=
  map_popped_of_cleared hc

theorem removed_take (s : ThreadState) (w : ℕ) (m : ThreadMsg) :
    (s.take w m).removed.map Prod.fst = s.removed.map Prod.fst ++ m.data.toList := by
  simp [take, Function.comp_def]

theorem fifo_step (h : Effect cfg l s s') (hq : QueueInv s) (hi : HistoryInv s) :
    ClassFifo DelegateMsg.priority s'.pushed (s'.removed.map Prod.fst) s'.queued := by
  cases h with
  | pushExit t hcon =>
    refine ⟨fun p => ?_⟩
    have hlog := hi.fifo.log p
    rwa [← queued_push_exit s p] at hlog
  | accept m hm hexit => exact hi.fifo.push m (queued_push_delegate s m)
  | popHigh w m rest hw hhigh =>
    have hm := hq.shape.high m (by simp [hhigh])
    show ClassFifo _ s.pushed ((s.take w m).removed.map Prod.fst) _
    rw [removed_take]
    exact hi.fifo.remove _ fun p => queued_pop_high hhigh hm (by rfl) (by rfl) p
  | popNormal w m rest hw hhigh hnormal =>
    have hm := hq.normal_head hnormal
    show ClassFifo _ s.pushed ((s.take w m).removed.map Prod.fst) _
    rw [removed_take]
    exact hi.fifo.remove _ fun p => queued_pop_normal hnormal hm (by rfl) (by rfl) p
  | reset t =>
    have hout : s.exitReset.removed.map Prod.fst =
        s.removed.map Prod.fst ++ (s.queued .high ++ s.queued .normal) := by
      simp [exitReset, Function.comp_def]
    rw [hout]
    refine hi.fifo.remove _ fun p => ?_
    rw [ofClass_append, hi.fifo.ofClass_queue, hi.fifo.ofClass_queue]
    cases p <;> simp [exitReset, queued]
  | _ => exact hi.fifo

/-- A `DispatchDelegate` that has not returned has pushed nothing. -/
theorem HistoryInv.not_mem_pushed (hi : HistoryInv s) {m : DelegateMsg} {pc : DispatchPc}
    (hpc : s.dispatch m.id = pc) (hne : ∀ x, pc ≠ .returned x true) :
    ∀ x ∈ s.pushed, x.id ≠ m.id := by
  intro x hx heq
  have hret := (hi.mem_pushed x).mp hx
  rw [heq, hpc] at hret
  exact hne x hret

theorem HistoryInv.fresh_of_accept (hi : HistoryInv s) {m : DelegateMsg}
    (hm : s.dispatch m.id = .checked m ∨ s.dispatch m.id = .waiting m) :
    ∀ x ∈ s.pushed, x.id ≠ m.id := by
  rcases hm with hm | hm
  · exact hi.not_mem_pushed hm (by simp)
  · exact hi.not_mem_pushed hm (by simp)

theorem DispatchMove.not_mem_pushed (hi : HistoryInv s) {m : DelegateMsg} {pc : DispatchPc}
    (h : DispatchMove cfg l s m pc) :
    (∀ x ∈ s.pushed, x.id ≠ m.id) ∧ ∀ x, pc ≠ .returned x true := by
  cases h with
  | rejectEarly _ hm | enter _ hm | throw _ hm | check hm | fault hm | wait hm =>
    exact ⟨hi.not_mem_pushed hm (by simp), by simp⟩
  | reject hm => exact ⟨hi.fresh_of_accept hm, by simp⟩

theorem mem_pushed_step (h : Effect cfg l s s') (hi : HistoryInv s) :
    ∀ m, m ∈ s'.pushed ↔ s'.dispatch m.id = .returned m true := by
  intro x
  cases h with
  | dispatch m pc hm =>
    rcases hm.not_mem_pushed hi with ⟨hfresh, hpc⟩
    by_cases heq : x.id = m.id
    · have hx : x ∉ s.pushed := fun hx => hfresh x hx heq
      simp [setDispatch, heq, hx, hpc x]
    · simpa [setDispatch, heq] using hi.mem_pushed x
  | accept m hm =>
    by_cases heq : x.id = m.id
    · have hx : x ∉ s.pushed := fun hx => hi.fresh_of_accept hm x hx heq
      simp [ThreadState.accept, setDispatch, push, heq, hx, eq_comm]
    · have hne : x ≠ m := fun h => heq (by rw [h])
      simpa [ThreadState.accept, setDispatch, push, heq, hne] using hi.mem_pushed x
  | _ => exact hi.mem_pushed x

theorem nodup_step (h : Effect cfg l s s') (hi : HistoryInv s) :
    (s'.pushed.map (·.id)).Nodup := by
  cases h with
  | accept m hm =>
    show ((s.pushed ++ [m]).map (·.id)).Nodup
    rw [List.map_append, List.nodup_append]
    refine ⟨hi.nodup, by simp, ?_⟩
    intro a ha b hb heq
    rcases List.mem_map.mp ha with ⟨x, hx, rfl⟩
    have hb : b = m.id := by simpa using hb
    exact hi.fresh_of_accept hm x hx (heq.trans hb)
  | _ => exact hi.nodup

theorem popped_step (h : Effect cfg l s s') (hl : Life s) (hq : QueueInv s) (hi : HistoryInv s) :
    s'.popped.filter (·.invoker) = s'.invoked ++ s'.hand := by
  have hkeep : s'.popped = s.popped → s'.invoked = s.invoked → s'.hand = s.hand →
      s'.popped.filter (·.invoker) = s'.invoked ++ s'.hand := by
    intro hp hinv hh
    rw [hp, hinv, hh]
    exact hi.popped
  -- a pop by the worker that `m_thread` names, whose hand is empty
  have hpop : ∀ w m, (s.worker w).pc = .lock → ((∃ p, IsDelegate p m) ∨ m = .exit) →
      s'.thread = s.thread → (s'.worker w).pc = .got m → s'.invoked = s.invoked →
      s'.popped = s.popped ++ m.data.toList →
      s'.popped.filter (·.invoker) = s'.invoked ++ s'.hand := by
    intro w m hw hm hth hw' hinv hp
    have hlive := hl.workers.live w (hl.live_of_lock hw)
    have hhand : s.hand = [] := by
      rw [hand_of_thread hlive, hw]
      rfl
    have hhand' : s'.hand = m.target.toList := by
      rw [hand_of_thread (hth.trans hlive), hw']
      rfl
    rw [hp, List.filter_append, hi.popped, hhand, hinv, hhand', data_filter hm, List.append_nil]
  cases h with
  | stutter | beginCreate | clearExit | started | beginExit | unjoinable | dispatch =>
    exact hkeep rfl rfl rfl
  | spawn hcon =>
    refine hkeep rfl rfl ?_
    have hc := hl.controls
    simp only [ControlInv, hcon] at hc
    have hnew : s.spawn.hand = inHand (s.spawn.worker s.spawned).pc := hand_of_thread rfl
    rw [hnew, spawn_pc, if_pos rfl, hand, hc.1]
    rfl
  | pushExit | accept => exact hkeep rfl rfl (hand_congr rfl fun h _ => inHand_notifyOne s.worker h)
  | join t h hcon hth hne hfin =>
    refine hkeep rfl rfl ?_
    rw [hand_of_thread hth, hfin]
    rfl
  | detach h hcon hth =>
    refine hkeep rfl rfl ?_
    rcases hl.callers h (Or.inr (Or.inl hcon)) with ⟨m, hm⟩
    rw [hand_of_thread hth, hm]
    rfl
  | reset t hlab hcon =>
    have hc := hl.controls
    simp only [ControlInv, hcon] at hc
    refine hkeep ?_ rfl ?_
    · simp [ThreadState.popped, exitReset]
    · rw [hand, hand, hc.1]
      rfl
  | move w pc hm =>
    refine hkeep rfl rfl (hand_congr rfl fun h _ => ?_)
    rw [setPc_pc]
    split
    · rename_i heq
      rw [heq, hm.inHand.1, hm.inHand.2]
    · rfl
  | popHigh w m rest hw hhigh =>
    have hm := hq.shape.high m (by simp [hhigh])
    exact hpop w m hw (Or.inl ⟨_, hm⟩) rfl (by simp) rfl (popped_take s w m)
  | popNormal w m rest hw hhigh hnormal =>
    have hm : (∃ p, IsDelegate p m) ∨ m = .exit :=
      (hq.normal_head hnormal).imp_left fun hd => ⟨_, hd⟩
    exact hpop w m hw hm rfl (by simp) rfl (popped_take s w m)
  | invoke w x m hlab hw hx =>
    -- the message leaves the hand and enters `invoked`
    have hlive := hl.workers.live w (hl.live_of_got hw)
    have hhand : s.hand = [m] := by
      rw [hand_of_thread hlive, hw]
      simp [inHand, hx]
    have hhand' : (s.invoke w m).hand = [] := by
      have hth : (s.invoke w m).thread = some (some w) := hlive
      rw [hand_of_thread hth]
      simp [inHand]
    have hp : (s.invoke w m).popped = s.popped := rfl
    have hinv : (s.invoke w m).invoked = s.invoked ++ [m] := rfl
    rw [hp, hi.popped, hhand, hinv, hhand', List.append_nil]

theorem HistoryInv.step (h : Effect cfg l s s') (hl : Life s) (hq : QueueInv s)
    (hi : HistoryInv s) : HistoryInv s' where
  fifo := fifo_step h hq hi
  mem_pushed := mem_pushed_step h hi
  nodup := nodup_step h hi
  popped := popped_step h hl hq hi

theorem history_of_reachable {ok : ThreadLabel → ThreadState → Prop}
    (h : (threadLts cfg).ReachableWhen ok s) : HistoryInv s := by
  refine h.induct ?_ ?_
  · rintro s rfl
    exact HistoryInv.initial
  · intro l s hr hg _ hi
    exact hi.step (step_effect cfg hg) (life_of_reachable hr) (queue_of_reachable hr)

/-! ## What the accounts say -/

namespace HistoryInv

variable (hi : HistoryInv s)

include hi

/-- What was pushed is what left the queues and what is queued. -/
theorem perm : s.pushed.Perm (s.removed.map Prod.fst ++ (s.queued .high ++ s.queued .normal)) := by
  refine hi.fifo.perm fun p => ?_
  rw [ofClass_append, hi.fifo.ofClass_queue, hi.fifo.ofClass_queue]
  cases p <;> simp

/-- No message occurs twice, in the queues or outside of them. -/
theorem ids_nodup :
    ((s.removed.map Prod.fst ++ (s.queued .high ++ s.queued .normal)).map (·.id)).Nodup :=
  (hi.perm.map _).nodup_iff.mp hi.nodup

/-- Messages are invoked in the order in which they left the queues. -/
theorem invoked_sublist : s.invoked.Sublist (s.removed.map Prod.fst) := by
  have hpre : s.invoked.Sublist (s.popped.filter (·.invoker)) := by
    rw [hi.popped]
    exact List.sublist_append_left _ _
  exact hpre.trans (List.filter_sublist.trans s.popped_sublist)

theorem invoked_nodup : (s.invoked.map (·.id)).Nodup := by
  have hsub : (s.invoked.map (·.id)).Sublist
      ((s.removed.map Prod.fst ++ (s.queued .high ++ s.queued .normal)).map (·.id)) :=
    (hi.invoked_sublist.trans (List.sublist_append_left _ _)).map _
  exact hsub.nodup hi.ids_nodup

/-- Only what was pushed is invoked. -/
theorem mem_pushed_of_invoked {m : DelegateMsg} (hm : m ∈ s.invoked) : m ∈ s.pushed :=
  hi.fifo.mem_of_removed (hi.invoked_sublist.subset hm)

theorem popped_of_hand {m : DelegateMsg} (hm : m ∈ s.hand) : m ∈ s.popped := by
  have hmem : m ∈ s.popped.filter (·.invoker) := by
    rw [hi.popped]
    exact List.mem_append_right _ hm
  exact (List.mem_filter.mp hmem).1

/-- A message in the worker's hand was pushed. -/
theorem mem_pushed_of_hand {m : DelegateMsg} (hm : m ∈ s.hand) : m ∈ s.pushed :=
  hi.fifo.mem_of_removed (s.popped_sublist.subset (hi.popped_of_hand hm))

/-- The message in the worker's hand has not been invoked. -/
theorem not_invoked_of_hand {m : DelegateMsg} (hm : m ∈ s.hand) :
    m.id ∉ s.invoked.map (·.id) := by
  have hnodup : ((s.invoked ++ s.hand).map (·.id)).Nodup := by
    rw [← hi.popped]
    have hsub : (s.popped.filter (·.invoker)).Sublist (s.removed.map Prod.fst) :=
      List.filter_sublist.trans s.popped_sublist
    have hsub' := (hsub.trans (List.sublist_append_left _
      (s.queued .high ++ s.queued .normal))).map (fun m : DelegateMsg => m.id)
    exact hsub'.nodup hi.ids_nodup
  rw [List.map_append] at hnodup
  intro hmem
  exact List.disjoint_of_nodup_append hnodup hmem (List.mem_map_of_mem hm)

/-- Where nothing is cleared, what left the queues was invoked, in that order, or
is in the worker's hand. -/
theorem removed_eq (hinv : ∀ m ∈ s.pushed, m.invoker = true) (hc : s.cleared = []) :
    s.removed.map Prod.fst = s.invoked ++ s.hand := by
  have hall : (s.removed.map Prod.fst).filter (·.invoker) = s.removed.map Prod.fst := by
    apply List.filter_eq_self.mpr
    intro m hm
    exact hinv m (hi.fifo.mem_of_removed hm)
  rw [← hall, ← popped_of_cleared hc]
  exact hi.popped

/-- With one priority, what was pushed is, in that order, what left the queues
and what is queued. -/
theorem pushed_eq {p : Priority} (hp : ∀ m ∈ s.pushed, m.priority = p) :
    s.pushed = s.removed.map Prod.fst ++ s.queued p := by
  have hclass : ∀ l : List DelegateMsg, (∀ m ∈ l, m ∈ s.pushed) →
      ofClass DelegateMsg.priority p l = l := by
    intro l hl
    apply List.filter_eq_self.mpr
    intro m hm
    simpa using hp m (hl m hm)
  have hlog := hi.fifo.log p
  rwa [hclass s.pushed fun m hm => hm, hclass _ fun m hm => hi.fifo.mem_of_removed hm] at hlog

/-- The queue of a priority that nobody uses is empty. -/
theorem queued_eq_nil {p q : Priority} (hp : ∀ m ∈ s.pushed, m.priority = p) (hne : q ≠ p) :
    s.queued q = [] := by
  refine List.eq_nil_iff_forall_not_mem.mpr fun m hm => ?_
  have hmem := hi.fifo.mem_of_queue hm
  exact hne (hmem.2.symm.trans (hp m hmem.1))

/-- Every pushed message is queued, in the worker's hand, invoked, cleared at an
exit, or has no invoker. -/
theorem cases_of_pushed {m : DelegateMsg} (hm : m ∈ s.pushed) (hinv : m.invoker = true) :
    m ∈ s.queued m.priority ∨ m ∈ s.hand ∨ m ∈ s.invoked ∨ m ∈ s.cleared := by
  rcases hi.fifo.mem_pushed hm with hr | hq
  · rcases List.mem_map.mp hr with ⟨⟨x, r⟩, hx, rfl⟩
    cases r with
    | popped =>
      have hpop : x ∈ s.popped.filter (·.invoker) := by
        simp only [ThreadState.popped, List.mem_filter, List.mem_map]
        exact ⟨⟨(x, .popped), by simp [hx], rfl⟩, hinv⟩
      rw [hi.popped] at hpop
      rcases List.mem_append.mp hpop with hinv | hhand
      · exact Or.inr (Or.inr (Or.inl hinv))
      · exact Or.inr (Or.inl hhand)
    | cleared =>
      refine Or.inr (Or.inr (Or.inr ?_))
      simp only [ThreadState.cleared, List.mem_map, List.mem_filter]
      exact ⟨(x, .cleared), by simp [hx], rfl⟩
  · exact Or.inl hq

end HistoryInv

end ThreadState

end AsyncSqlite
