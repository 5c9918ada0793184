import Mathlib
import AsyncSqlite.Lts.Run

/-!
# AsyncSqlite.Lts.Rank — runs that must end

A set `p` of labels is settled in a state when none of them can step. Where
every step by a label of `p` lowers a rank, a run has no more such steps than
the rank of its first state (`Run.countP_add_rank_le`): the labels of `p` settle
at some point, whatever the others do.

`sum_comp_update` is the arithmetic of a rank that is a sum over the threads of
a system in which one thread moves at a time.
-/

namespace AsyncSqlite

universe u v

namespace Lts

variable {σ : Type u} {ι : Type v} (M : Lts σ ι)

/-- No label of `p` can step. -/
def Settled (p : ι → Prop) (s : σ) : Prop := ∀ l, p l → ¬ M.guard l s

/-- Steps by labels of `p` lower the rank. -/
def Lowers (p : ι → Prop) (rank : σ → ℕ) : Prop :=
  ∀ l s, p l → M.guard l s → rank (M.update l s) < rank s

variable {M} {p : ι → Prop} {rank : σ → ℕ}

/-- Steps outside of `p` may happen in between, as long as they do not raise
the rank. -/
theorem Run.countP_add_rank_le [DecidablePred p] {q : ι → Prop} (hlow : M.Lowers p rank)
    (hkeep : ∀ l s, q l → ¬ p l → M.guard l s → rank (M.update l s) ≤ rank s) {s s' : σ}
    {ls : List ι} (hrun : M.Run s ls s') (hls : ∀ l ∈ ls, q l) :
    ls.countP p + rank s' ≤ rank s := by
  induction hrun with
  | nil => simp
  | concat hpre hg ih =>
    rename_i s₁ ls₁ l
    have hbefore := ih fun l' hl' => hls l' (List.mem_append_left _ hl')
    rw [List.countP_append, List.countP_singleton]
    by_cases hl : p l
    · have hlast := hlow l _ hl hg
      simp only [hl, decide_true, if_true]
      omega
    · have hlast := hkeep l _ (hls l (by simp)) hl hg
      simp only [hl, decide_false, Bool.false_eq_true, if_false]
      omega

/-- What steps of one kind preserve, a run of them preserves. -/
theorem Run.preserves {q : ι → Prop} {P : σ → Prop}
    (hstep : ∀ l s, q l → M.guard l s → P s → P (M.update l s)) {s s' : σ} {ls : List ι}
    (hrun : M.Run s ls s') (hls : ∀ l ∈ ls, q l) (h : P s) : P s' := by
  induction hrun with
  | nil => exact h
  | concat hpre hg ih =>
    have hbefore := ih fun l hl => hls l (List.mem_append_left _ hl)
    exact hstep _ _ (hls _ (by simp)) hg hbefore

/-- Where `P` holds and stays, steps of one kind that lower the rank are no more than
the rank. -/
theorem Run.length_add_rank_le {q : ι → Prop} {P : σ → Prop}
    (hstep : ∀ l s, q l → M.guard l s → P s → P (M.update l s) ∧ rank (M.update l s) < rank s)
    {s s' : σ} {ls : List ι} (hrun : M.Run s ls s') (hls : ∀ l ∈ ls, q l) (h : P s) :
    ls.length + rank s' ≤ rank s := by
  induction hrun with
  | nil => simp
  | concat hpre hg ih =>
    have hq : ∀ l ∈ _, q l := fun l hl => hls l (List.mem_append_left _ hl)
    have hP := hpre.preserves (fun l s hl hg h => (hstep l s hl hg h).1) hq h
    have hlast := (hstep _ _ (hls _ (by simp)) hg hP).2
    have hbefore := ih hq
    rw [List.length_append, List.length_singleton]
    omega

end Lts

/-! ## One thread moves -/

theorem sum_comp_update {ι : Type u} {κ : Type v} [Fintype ι] [DecidableEq ι] (rank : κ → ℕ)
    (pc : ι → κ) (i : ι) (k : κ) :
    (∑ j, rank (Function.update pc i k j)) + rank (pc i) = (∑ j, rank (pc j)) + rank k := by
  have hsplit := Finset.add_sum_erase Finset.univ (fun j => rank (pc j)) (Finset.mem_univ i)
  have hsplit' := Finset.add_sum_erase Finset.univ (fun j => rank (Function.update pc i k j))
    (Finset.mem_univ i)
  have hothers : ∑ j ∈ Finset.univ.erase i, rank (Function.update pc i k j) =
      ∑ j ∈ Finset.univ.erase i, rank (pc j) := by
    refine Finset.sum_congr rfl fun j hj => ?_
    rw [Function.update_of_ne (Finset.ne_of_mem_erase hj)]
  simp only [Function.update_self] at hsplit'
  omega

end AsyncSqlite
