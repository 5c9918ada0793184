import Mathlib.Order.Defs.PartialOrder
import AsyncSqlite.Lts.History
import AsyncSqlite.Lts.Run

/-!
# AsyncSqlite.Lts.PriorityQueue — one priority queue

What a queue with priorities is for, whatever it is made of: it holds what was
accepted, oldest first, and gives out the oldest entry of the highest rank.
`PriorityQueue.fifo` is what a client may rely on: entries of one rank come out
in the order in which they went in.

A system that keeps its entries in other ways refines it (`RefinesWhen`);
`taken_next` then says what every dequeue of that system yields.
-/

namespace AsyncSqlite

universe u v w x

variable {α : Type u} {κ : Type v}

/-- `a` is the oldest entry of the highest rank in `l`. -/
def IsNext [Preorder κ] (rank : α → κ) (l : List α) (a : α) : Prop :=
  (∀ b ∈ l, rank b ≤ rank a) ∧ ∃ front back, l = front ++ a :: back ∧ ∀ b ∈ front, rank b ≠ rank a

/-- The head of the highest class. -/
theorem isNext_of_ofClass [Preorder κ] [DecidableEq κ] {rank : α → κ} {l rest : List α} {a : α}
    (hhead : ofClass rank (rank a) l = a :: rest) (hmax : ∀ b ∈ l, rank b ≤ rank a) :
    IsNext rank l a := by
  refine ⟨hmax, ?_⟩
  unfold ofClass at hhead
  rcases List.filter_eq_cons_iff.mp hhead with ⟨front, back, rfl, hfront, -, -⟩
  refine ⟨front, back, rfl, fun b hb => ?_⟩
  simpa using hfront b hb

structure PriorityQueue (α : Type u) where
  /-- what is queued, in the order of acceptance -/
  pending : List α
  /-- history: what was accepted -/
  accepted : List α
  /-- history: what was dequeued -/
  taken : List α

inductive PriorityLabel (α : Type u) where
  | accept (a : α)
  | dequeue (a : α)
  /-- everything that is queued is thrown away -/
  | discard

def priorityLts [Preorder κ] [DecidableEq α] (rank : α → κ) :
    Lts (PriorityQueue α) (PriorityLabel α) where
  init := fun q => q = ⟨[], [], []⟩
  guard
    | .accept _, _ => True
    | .dequeue a, q => IsNext rank q.pending a
    | .discard, _ => True
  update
    | .accept a, q => { q with pending := q.pending ++ [a], accepted := q.accepted ++ [a] }
    | .dequeue a, q => { q with pending := q.pending.erase a, taken := q.taken ++ [a] }
    | .discard, q => { q with pending := [] }

namespace PriorityQueue

variable [Preorder κ] [DecidableEq κ] [DecidableEq α] {rank : α → κ}

/-- Class by class, what was dequeued and what is queued was accepted in this
order. -/
def FifoInv (rank : α → κ) (q : PriorityQueue α) : Prop :=
  ∀ k, (ofClass rank k q.taken ++ ofClass rank k q.pending).Sublist (ofClass rank k q.accepted)

theorem ofClass_erase {l : List α} {a : α} (h : IsNext rank l a) (k : κ) :
    ofClass rank k [a] ++ ofClass rank k (l.erase a) = ofClass rank k l := by
  rcases h.2 with ⟨front, back, rfl, hfront⟩
  have hout : a ∉ front := fun ha => hfront a ha rfl
  rw [List.erase_append_right _ hout, List.erase_cons_head]
  have hsplit : ofClass rank k (front ++ a :: back) =
      ofClass rank k front ++ (ofClass rank k [a] ++ ofClass rank k back) := by
    rw [← ofClass_append, ← ofClass_append]
    rfl
  rw [hsplit, ofClass_append, ofClass_singleton]
  by_cases hk : rank a = k
  · have hnone : ofClass rank k front = [] := by
      refine List.filter_eq_nil_iff.mpr fun b hb => ?_
      rw [← hk]
      simpa using hfront b hb
    rw [hnone, List.nil_append, List.nil_append]
  · rw [if_neg hk, List.nil_append, List.nil_append]

theorem fifoInv_of_reachable {q : PriorityQueue α} (hr : (priorityLts rank).Reachable q) :
    FifoInv rank q := by
  refine hr.induct (P := FifoInv rank) ?_ ?_
  · rintro q rfl k
    simp [ofClass]
  · intro l q _ hg _ h k
    have hk := h k
    cases l with
    | accept a =>
      simp only [priorityLts, ofClass_append]
      rw [← List.append_assoc]
      exact hk.append (List.Sublist.refl _)
    | dequeue a =>
      simp only [priorityLts, ofClass_append]
      rw [List.append_assoc, ofClass_erase hg k]
      exact hk
    | discard =>
      have hnil : ofClass rank k ([] : List α) = [] := rfl
      simp only [priorityLts, hnil, List.append_nil]
      exact (List.sublist_append_left _ _).trans hk

/-- Entries of one rank come out in the order in which they were accepted. -/
theorem fifo {q : PriorityQueue α} (hr : (priorityLts rank).Reachable q) (k : κ) :
    (ofClass rank k q.taken).Sublist (ofClass rank k q.accepted) :=
  (List.sublist_append_left _ _).trans (fifoInv_of_reachable hr k)

end PriorityQueue

/-! ## What is outstanding -/

section Outstanding

variable [DecidableEq α]

/-- What was accepted and has not left, in the order of acceptance. -/
def outstanding (accepted removed : List α) : List α := accepted.filter (· ∉ removed)

variable {accepted removed : List α} {a : α}

theorem outstanding_accept (ha : a ∉ removed) :
    outstanding (accepted ++ [a]) removed = outstanding accepted removed ++ [a] := by
  simp [outstanding, ha]

theorem outstanding_remove (hn : accepted.Nodup) :
    outstanding accepted (removed ++ [a]) = (outstanding accepted removed).erase a := by
  unfold outstanding
  rw [(hn.filter _).erase_eq_filter, List.filter_filter]
  refine List.filter_congr fun b _ => ?_
  by_cases hba : b = a
  · simp [hba]
  · simp [hba]

/-- Nothing is outstanding once everything has left. -/
theorem outstanding_eq_nil (h : ∀ b ∈ accepted, b ∈ removed) :
    outstanding accepted removed = [] := by
  refine List.filter_eq_nil_iff.mpr fun b hb => ?_
  simpa using h b hb

/-- A queue that keeps one FIFO per class holds what is outstanding. -/
theorem ClassFifo.outstanding [DecidableEq κ] {cls : α → κ} {queue : κ → List α}
    (h : ClassFifo cls accepted removed queue) (hn : accepted.Nodup) (k : κ) :
    ofClass cls k (outstanding accepted removed) = queue k := by
  have hnk : (ofClass cls k removed ++ queue k).Nodup := by
    rw [← h.log k]
    exact hn.filter _
  have hcomm : ofClass cls k (AsyncSqlite.outstanding accepted removed) =
      (ofClass cls k accepted).filter (· ∉ removed) := by
    unfold AsyncSqlite.outstanding ofClass
    rw [List.filter_filter, List.filter_filter]
    exact List.filter_congr fun b _ => Bool.and_comm _ _
  rw [hcomm, h.log k, List.filter_append]
  have hgone : (ofClass cls k removed).filter (· ∉ removed) = [] := by
    refine List.filter_eq_nil_iff.mpr fun b hb => ?_
    simpa using ((mem_ofClass cls).mp hb).1
  have hkept : (queue k).filter (· ∉ removed) = queue k := by
    refine List.filter_eq_self.mpr fun b hb => ?_
    have hb' : b ∉ removed := by
      intro hrem
      have hcls := (h.mem_of_queue hb).2
      exact List.disjoint_of_nodup_append hnk ((mem_ofClass cls).mpr ⟨hrem, hcls⟩) hb
    simpa using hb'
  rw [hgone, hkept, List.nil_append]

end Outstanding

/-! ## Systems that refine it -/

section Refines

variable [Preorder κ] [DecidableEq α] {rank : α → κ} {σ : Type w} {ι : Type x} {M : Lts σ ι}
  {ok : ι → σ → Prop} {f : σ → PriorityQueue α}

/-- Every dequeue yields the oldest entry of the highest rank. -/
theorem Lts.RefinesWhen.taken_next (h : M.RefinesWhen ok f (priorityLts rank)) {l : ι} {s : σ}
    {a : α} (hr : M.ReachableWhen ok s) (hg : M.guard l s) (hok : ok l s)
    (htaken : (f (M.update l s)).taken = (f s).taken ++ [a]) : IsNext rank (f s).pending a := by
  rcases h.step l s hr hg hok with hst | ⟨k, hk, heq⟩
  · rw [hst] at htaken
    have hlen := congrArg List.length htaken
    simp at hlen
  · rw [heq] at htaken
    cases k with
    | dequeue b =>
      simp only [priorityLts, List.append_cancel_left_eq, List.cons.injEq, and_true] at htaken
      rw [← htaken]
      exact hk
    | accept b | discard =>
      have hlen := congrArg List.length htaken
      simp [priorityLts] at hlen

end Refines

end AsyncSqlite
