import AsyncSqlite.Port.Priority
import AsyncSqlite.Port.RtosHistory

/-!
# AsyncSqlite.Port.RtosOrder — the RTOS ports as one priority queue

CMSIS-RTOS2 ranks its messages, Zephyr does not, and ThreadX puts one of high
priority in front. Seen through what is outstanding, the first is a priority queue
and the second a queue in every run; the third is a priority queue as long as no
message of high priority is put while another is queued.
-/

namespace AsyncSqlite

/-- The rank of a delegate message. -/
def RtosPort.key (p : RtosPort) (m : DelegateMsg) : ℕ := p.rank m.priority

namespace RtosThread

variable {p : RtosPort} {cfg : Config} {l : RtosThreadLabel} {s s' : RtosThread}

def toQueue (s : RtosThread) : PriorityQueue DelegateMsg :=
  AsyncSqlite.toQueue s.accepted s.popped s.removed

/-- On ThreadX, a put of high priority that succeeds finds no other such message in
the queue. -/
def OneHigh (p : RtosPort) (cfg : Config) (l : RtosThreadLabel) (s : RtosThread) : Prop :=
  match l with
  | .dispatchDelegate m | .dispatchPut m =>
    p = .threadX → m.priority = .high → s.hasSpace cfg → ∀ d ∈ s.queued, d.priority ≠ .high
  | _ => True

instance (p : RtosPort) (cfg : Config) (l : RtosThreadLabel) (s : RtosThread) :
    Decidable (OneHigh p cfg l s) :=
  match l with
  | .dispatchDelegate m | .dispatchPut m =>
    inferInstanceAs (Decidable (p = .threadX → m.priority = .high → s.hasSpace cfg →
      ∀ d ∈ s.queued, d.priority ≠ .high))
  | .createThread _ | .exitThread | .exitPut | .exitAcquire | .exitCleanUp | .exitSelf _
  | .dispatchTimeout _ | .runLoop | .runGet | .runTimeout | .runMsg _ | .invokeReturn _
  | .invokeThrow _ | .runGive => isTrue trivial

/-! ## One queue -/

/-- Higher ranks in front. -/
def Sorted (p : RtosPort) (q : List ThreadMsg) : Prop :=
  q.Pairwise fun a b => p.rank b.getPriority ≤ p.rank a.getPriority

theorem rank_le_high (p : RtosPort) (k : Priority) : p.rank k ≤ p.rank .high := by
  cases p <;> cases k <;> decide

theorem getPriority_of_data {m : ThreadMsg} {d : DelegateMsg} (hd : m.data = some d) :
    m.getPriority = d.priority := by
  simp [ThreadMsg.getPriority, hd]

theorem sorted_concat {m : ThreadMsg} {q : List ThreadMsg} (h : Sorted p q)
    (hm : p.rank m.getPriority = 0) : Sorted p (q ++ [m]) := by
  refine List.pairwise_append.mpr ⟨h, List.pairwise_singleton _ _, ?_⟩
  intro a _ b hb
  rw [List.mem_singleton.mp hb, hm]
  exact Nat.zero_le _

theorem sorted_enqueue {m : ThreadMsg} {q : List ThreadMsg} (h : Sorted p q) :
    Sorted p (p.enqueue m q) := by
  cases p with
  | threadX =>
    dsimp only [RtosPort.enqueue]
    split_ifs with hhigh
    · refine List.pairwise_cons.mpr ⟨?_, h⟩
      intro a _
      rw [hhigh]
      exact rank_le_high _ _
    · refine sorted_concat h ?_
      cases hm : m.getPriority with
      | normal => rfl
      | high => exact absurd hm hhigh
  | zephyr => exact sorted_concat h rfl
  | cmsisRtos2 =>
    dsimp only [RtosPort.enqueue]
    induction q with
    | nil => exact List.pairwise_singleton _ _
    | cons b q ih =>
      rcases List.pairwise_cons.mp h with ⟨hb, hq⟩
      rw [List.orderedInsert_cons]
      split_ifs with hlt
      · -- in front of the first message of a lower rank
        refine List.pairwise_cons.mpr ⟨?_, h⟩
        intro a ha
        rcases List.mem_cons.mp ha with rfl | ha
        · exact Nat.le_of_lt hlt
        · exact (hb a ha).trans (Nat.le_of_lt hlt)
      · refine List.pairwise_cons.mpr ⟨?_, ih hq⟩
        intro a ha
        rcases (List.mem_orderedInsert _).mp ha with rfl | ha
        · exact Nat.le_of_not_lt hlt
        · exact hb a ha

/-- In front of a list that has none of its rank, a message is as well behind it. -/
theorem ofClass_cons_append {m : DelegateMsg} {l : List DelegateMsg}
    (hnone : ∀ d ∈ l, p.key d ≠ p.key m) (k : ℕ) :
    ofClass p.key k (m :: l) = ofClass p.key k l ++ ofClass p.key k [m] := by
  have hcons : ofClass p.key k (m :: l) = ofClass p.key k [m] ++ ofClass p.key k l :=
    ofClass_append _ k [m] l
  rw [hcons]
  by_cases hk : p.key m = k
  · have hnil : ofClass p.key k l = [] := by
      refine List.eq_nil_iff_forall_not_mem.mpr fun d hd => ?_
      rcases (mem_ofClass _).mp hd with ⟨hd, hdk⟩
      exact hnone d hd (hdk.trans hk.symm)
    rw [hnil, List.append_nil, List.nil_append]
  · have hnil : ofClass p.key k [m] = [] := by
      rw [ofClass_singleton, if_neg hk]
    rw [hnil, List.append_nil, List.nil_append]

/-- Rank by rank, the message is behind those that were there. -/
theorem ofClass_enqueue {m : DelegateMsg} {q : List ThreadMsg} (h : Sorted p q)
    (hone : p = .threadX → m.priority = .high →
      ∀ d ∈ q.filterMap (·.data), d.priority ≠ .high) (k : ℕ) :
    ofClass p.key k ((p.enqueue (.delegate m) q).filterMap (·.data)) =
      ofClass p.key k (q.filterMap (·.data)) ++ ofClass p.key k [m] := by
  have hback : ofClass p.key k ((q ++ [ThreadMsg.delegate m]).filterMap (·.data)) =
      ofClass p.key k (q.filterMap (·.data)) ++ ofClass p.key k [m] := by
    rw [List.filterMap_append, ofClass_append]
    rfl
  cases p with
  | zephyr => exact hback
  | threadX =>
    by_cases hhigh : m.priority = .high
    · have hfront : (RtosPort.threadX.enqueue (.delegate m) q).filterMap (·.data) =
          m :: q.filterMap (·.data) := by
        simp [RtosPort.enqueue, ThreadMsg.getPriority, hhigh]
      rw [hfront]
      refine ofClass_cons_append (fun d hd => ?_) k
      have hlow := hone rfl hhigh d hd
      cases hd' : d.priority with
      | high => exact absurd hd' hlow
      | normal => simp [RtosPort.key, hd', hhigh, RtosPort.rank]
    · have henqueue : RtosPort.threadX.enqueue (.delegate m) q = q ++ [.delegate m] := by
        simp [RtosPort.enqueue, ThreadMsg.getPriority, hhigh]
      rw [henqueue]
      exact hback
  | cmsisRtos2 =>
    clear hback hone
    dsimp only [RtosPort.enqueue]
    induction q with
    | nil => rfl
    | cons b q ih =>
      rcases List.pairwise_cons.mp h with ⟨hb, hq⟩
      rw [List.orderedInsert_cons]
      split_ifs with hlt
      · -- what is behind it has a lower rank
        have hlower : ∀ d ∈ (b :: q).filterMap (·.data),
            RtosPort.cmsisRtos2.key d ≠ RtosPort.cmsisRtos2.key m := by
          intro d hd
          rcases List.mem_filterMap.mp hd with ⟨x, hx, hxd⟩
          have hrank := getPriority_of_data hxd
          have hle : RtosPort.cmsisRtos2.rank x.getPriority ≤
              RtosPort.cmsisRtos2.rank b.getPriority := by
            rcases List.mem_cons.mp hx with rfl | hx
            · exact Nat.le_refl _
            · exact hb x hx
          rw [hrank] at hle
          exact Nat.ne_of_lt (Nat.lt_of_le_of_lt hle hlt)
        exact ofClass_cons_append hlower k
      · have hrest := ih hq
        cases hd : b.data with
        | none =>
          rw [List.filterMap_cons_none hd, List.filterMap_cons_none hd]
          exact hrest
        | some d =>
          have hcons : ∀ l, ofClass RtosPort.cmsisRtos2.key k (d :: l) =
              ofClass RtosPort.cmsisRtos2.key k [d] ++ ofClass RtosPort.cmsisRtos2.key k l :=
            fun l => ofClass_append _ k [d] l
          rw [List.filterMap_cons_some hd, List.filterMap_cons_some hd]
          refine (hcons _).trans ?_
          rw [hrest, ← List.append_assoc]
          exact congrArg (· ++ _) (hcons _).symm

/-! ## The queue and what is outstanding -/

/-- The queue holds what is outstanding, each rank in the order of acceptance. -/
structure OrderInv (p : RtosPort) (s : RtosThread) : Prop where
  sorted : Sorted p s.messages
  classes : ∀ k, ofClass p.key k s.queued = ofClass p.key k s.toQueue.pending

theorem OrderInv.of_empty (hq : s.messages = []) (hpending : s.toQueue.pending = []) :
    OrderInv p s where
  sorted := by
    rw [hq]
    exact List.Pairwise.nil
  classes k := by
    rw [hpending, queued, hq]
    rfl

/-- The first delegate message of the queue is the oldest one of the highest rank. -/
theorem OrderInv.isNext (h : OrderInv p s) {m : ThreadMsg} {rest : List ThreadMsg}
    {d : DelegateMsg} (hq : s.queue = some (m :: rest)) (hd : m.data = some d) :
    IsNext p.key s.toQueue.pending d := by
  have hmsgs := messages_of_queue hq
  have hqueued : s.queued = d :: rest.filterMap (·.data) := by
    rw [queued_get hq, hd]
    rfl
  have hsorted := h.sorted
  rw [hmsgs] at hsorted
  have hfirst := (List.pairwise_cons.mp hsorted).1
  have hhead : ofClass p.key (p.key d) s.toQueue.pending =
      d :: ofClass p.key (p.key d) (rest.filterMap (·.data)) := by
    rw [← h.classes, hqueued]
    simp [ofClass]
  refine isNext_of_ofClass hhead ?_
  intro b hb
  have hmem : b ∈ s.queued := by
    have hclass : b ∈ ofClass p.key (p.key b) s.toQueue.pending := (mem_ofClass _).mpr ⟨hb, rfl⟩
    rw [← h.classes] at hclass
    exact ((mem_ofClass _).mp hclass).1
  rcases List.mem_filterMap.mp hmem with ⟨x, hx, hxb⟩
  unfold RtosPort.key
  rw [← getPriority_of_data hxb, ← getPriority_of_data hd]
  rw [hmsgs] at hx
  rcases List.mem_cons.mp hx with rfl | hx
  · exact Nat.le_refl _
  · exact hfirst x hx

theorem accept_refines (hi : HistoryInv s) {m : DelegateMsg}
    (hm : s.dispatch m.id = .idle ∨ s.dispatch m.id = .waiting m) :
    (s.accept p m).toQueue = (priorityLts p.key).update (.accept m) s.toQueue := by
  refine toQueue_accept fun hrem => ?_
  have hmem := hi.ledger.perm.symm.subset (List.mem_append_left _ hrem)
  exact hi.fresh hm m hmem rfl

theorem OrderInv.accept (h : OrderInv p s) (hi : HistoryInv s) {m : DelegateMsg}
    {q : List ThreadMsg} (hm : s.dispatch m.id = .idle ∨ s.dispatch m.id = .waiting m)
    (hq : s.queue = some q)
    (hone : p = .threadX → m.priority = .high → ∀ d ∈ s.queued, d.priority ≠ .high) :
    OrderInv p (s.accept p m) := by
  have hmsgs := messages_of_queue hq
  have hsorted := h.sorted
  rw [hmsgs] at hsorted
  have hqueued : s.queued = q.filterMap (·.data) := by
    rw [queued, hmsgs]
  constructor
  · rw [messages_accept m hq]
    exact sorted_enqueue hsorted
  · intro k
    have hpending : (s.accept p m).toQueue.pending = s.toQueue.pending ++ [m] := by
      rw [accept_refines hi hm]
      rfl
    rw [hqueued] at hone
    rw [hpending, ofClass_append, ← h.classes, hqueued, queued, messages_accept m hq]
    exact ofClass_enqueue hsorted hone k

/-- What is thrown away is not outstanding. -/
theorem close_refines (hi : HistoryInv s) :
    s.close.toQueue = (priorityLts p.key).update .discard s.toQueue := by
  have hall : ∀ m ∈ s.accepted, m ∈ s.close.removed.map Prod.fst := by
    intro m hm
    rw [removed_close]
    exact hi.ledger.perm.subset hm
  unfold toQueue
  rw [popped_close]
  exact toQueue_discard hall

theorem OrderInv.close (hi : HistoryInv s) : OrderInv p s.close := by
  refine .of_empty (by simp [messages, RtosThread.close]) ?_
  rw [close_refines (p := p) hi]
  rfl

/-- Taking the first message. -/
theorem OrderInv.get (h : OrderInv p s) (hi : HistoryInv s) {m : ThreadMsg}
    {rest : List ThreadMsg} (hq : s.queue = some (m :: rest)) :
    let s' : RtosThread := { s with
      task := .got m
      queue := some rest
      removed := s.removed ++ m.data.toList.map (·, .popped) }
    OrderInv p s' ∧ (s'.toQueue = s.toQueue ∨
      ∃ k, (priorityLts p.key).guard k s.toQueue ∧
        s'.toQueue = (priorityLts p.key).update k s.toQueue) := by
  intro s'
  have hsorted := h.sorted
  rw [messages_of_queue hq] at hsorted
  have hqueued := queued_get hq
  cases hd : m.data with
  | none =>
    -- the exit message is none of the abstract queue's
    have hsame : s'.toQueue = s.toQueue := by
      simp [s', toQueue, RtosThread.popped, hd]
    rw [hd] at hqueued
    refine ⟨⟨(List.pairwise_cons.mp hsorted).2, fun k => ?_⟩, Or.inl hsame⟩
    rw [hsame, ← h.classes, hqueued]
    rfl
  | some d =>
    have hnext := h.isNext hq hd
    have hf : s'.toQueue = (priorityLts p.key).update (.dequeue d) s.toQueue := by
      have hpopped : s'.popped = s.popped ++ [d] := by simp [s', RtosThread.popped, hd]
      have hremoved : s'.removed = s.removed ++ [(d, .popped)] := by simp [s', hd]
      unfold toQueue
      rw [hpopped, hremoved]
      exact toQueue_dequeue (hi.ledger.nodup.of_map _) .popped
    rw [hd] at hqueued
    refine ⟨⟨(List.pairwise_cons.mp hsorted).2, fun k => ?_⟩, Or.inr ⟨.dequeue d, hnext, hf⟩⟩
    have hpending : s'.toQueue.pending = s.toQueue.pending.erase d := by
      rw [hf]
      rfl
    have hclass := h.classes k
    rw [hqueued, ← PriorityQueue.ofClass_erase hnext k, Option.toList_some,
      ofClass_append] at hclass
    rw [hpending]
    exact List.append_cancel_left hclass

theorem OrderInv.step (h : Effect p cfg l s s') (hok : OneHigh p cfg l s) (hl : LifeInv s)
    (hi : HistoryInv s) (ho : OrderInv p s) :
    OrderInv p s' ∧ (s'.toQueue = s.toQueue ∨
      ∃ k, (priorityLts p.key).guard k s.toQueue ∧
        s'.toQueue = (priorityLts p.key).update k s.toQueue) := by
  cases h with
  | stutter => exact ⟨ho, Or.inl rfl⟩
  | create watchdog hidle hcreated =>
    -- there was no queue, and nothing is outstanding
    have hnone : s.queue = none := by
      have hqueue := hl.queue
      rw [hcreated] at hqueue
      simpa using hqueue
    have hmsgs : s.messages = [] := by simp [messages, hnone]
    refine ⟨⟨List.Pairwise.nil, fun k => ?_⟩, Or.inl rfl⟩
    have hclass := ho.classes k
    rw [queued, hmsgs] at hclass
    exact hclass
  | beginExit | acquire | dispatch | move | throw | invoke | give =>
    exact ⟨⟨ho.sorted, ho.classes⟩, Or.inl rfl⟩
  | put hcontrol =>
    refine ⟨⟨?_, fun k => ?_⟩, Or.inl rfl⟩
    · cases hq : s.queue with
      | none =>
        have hmsgs : (s.exitPut p).messages = [] := by simp [messages, exitPut, hq]
        rw [hmsgs]
        exact List.Pairwise.nil
      | some q =>
        have hsorted := ho.sorted
        rw [messages_of_queue hq] at hsorted
        have hmsgs : (s.exitPut p).messages = p.enqueue .exit q := by simp [messages, exitPut, hq]
        rw [hmsgs]
        exact sorted_enqueue hsorted
    · rw [queued_exitPut]
      exact ho.classes k
  | cleanUp | exitSelf =>
    have hclosed := OrderInv.close (p := p) hi
    exact ⟨⟨hclosed.sorted, hclosed.classes⟩, Or.inr ⟨.discard, trivial, close_refines hi⟩⟩
  | accept m q hidle hlab hm hq hspace =>
    refine ⟨ho.accept hi hm hq fun hport hhigh => ?_,
      Or.inr ⟨.accept m, trivial, accept_refines hi hm⟩⟩
    rcases hlab with rfl | rfl
    · exact hok hport hhigh hspace
    · exact hok hport hhigh hspace
  | get m rest htask hq => exact ho.get hi hq

theorem order_of_reachable (hr : (rtosThreadLts p cfg).ReachableWhen (OneHigh p cfg) s) :
    OrderInv p s := by
  refine hr.induct (P := OrderInv p) ?_ ?_
  · intro s hinit
    rw [show s = RtosThread.initial from hinit]
    exact .of_empty rfl rfl
  · intro l s hr hg hok ho
    exact (ho.step (step_effect p cfg hg) hok (life_of_reachable hr) (history_of_reachable hr)).1

theorem refines_priorityLts (p : RtosPort) (cfg : Config) :
    (rtosThreadLts p cfg).RefinesWhen (OneHigh p cfg) toQueue (priorityLts p.key) where
  init := by
    intro s hinit
    rw [show s = RtosThread.initial from hinit]
    rfl
  step := by
    intro l s hr hg hok
    exact ((order_of_reachable hr).step (step_effect p cfg hg) hok (life_of_reachable hr)
      (history_of_reachable hr)).2

end RtosThread

open RtosThread

/-- The queue of each port refines one priority queue over its ranks. So what a
receive yields is the oldest of what is outstanding in the highest rank, messages of
one rank are run in the order in which they were accepted, and none is run twice. -/
theorem rtos_refines_queue (p : RtosPort) (cfg : Config) :
    (rtosThreadLts p cfg).RefinesWhen (OneHigh p cfg) RtosThread.toQueue (priorityLts p.key) ∧
      ∀ s, (rtosThreadLts p cfg).ReachableWhen (OneHigh p cfg) s →
        (∀ l d, guard cfg l s → OneHigh p cfg l s →
          (update p cfg l s).popped = s.popped ++ [d] →
          IsNext p.key (outstanding s.accepted (s.removed.map Prod.fst)) d) ∧
        s.invoked.Nodup ∧
        ∀ k, (ofClass p.key k s.invoked).Sublist (ofClass p.key k s.accepted) := by
  have hrefines := refines_priorityLts p cfg
  refine ⟨hrefines, fun s hr => ⟨?_, ?_, ?_⟩⟩
  · intro l d hg hok hpopped
    exact hrefines.taken_next hr hg hok hpopped
  · exact (history_of_reachable hr).ledger.invoked_nodup
  · intro k
    have hsub := (history_of_reachable hr).ledger.invoked_sublist
    exact (hsub.filter _).trans (PriorityQueue.fifo (hrefines.reachable hr) k)

/-- CMSIS-RTOS2 with two messages of high priority behind one of normal priority; the
older one of them is next. -/
theorem rtos_refines_queue_run : ∃ s : RtosThread,
    s.queued = [⟨1, true, .high⟩, ⟨2, true, .high⟩, ⟨0, true, .normal⟩] ∧
      IsNext RtosPort.cmsisRtos2.key (outstanding s.accepted (s.removed.map Prod.fst))
        ⟨1, true, .high⟩ := by
  have hrun := Lts.execWhen_reachable (rtosThreadLts .cmsisRtos2 ⟨0, .drop⟩)
    (OneHigh .cmsisRtos2 ⟨0, .drop⟩)
    (show (rtosThreadLts .cmsisRtos2 ⟨0, .drop⟩).init initial from rfl)
    [.createThread none, .dispatchDelegate ⟨0, true, .normal⟩, .dispatchDelegate ⟨1, true, .high⟩,
      .dispatchDelegate ⟨2, true, .high⟩, .runLoop]
    (fun s => s.queued = [⟨1, true, .high⟩, ⟨2, true, .high⟩, ⟨0, true, .normal⟩] &&
      (s.task = .receive && s.messages ≠ []) && s.get.popped = s.popped ++ [⟨1, true, .high⟩])
    (by decide +kernel)
  rcases hrun with ⟨s, hr, hp⟩
  simp only [Bool.and_eq_true, decide_eq_true_eq] at hp
  rcases hp with ⟨⟨hqueued, htask, hne⟩, hpopped⟩
  exact ⟨s, hqueued,
    ((rtos_refines_queue .cmsisRtos2 ⟨0, .drop⟩).2 s hr).1 .runGet _ ⟨htask, hne⟩ trivial hpopped⟩

end AsyncSqlite
