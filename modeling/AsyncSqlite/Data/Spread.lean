import Mathlib.Data.List.Basic
import Mathlib.Data.List.Perm.Basic
import Mathlib.Tactic.Common

/-!
# AsyncSqlite.Data.Spread — items that bring forth items

Each item `a` of a bag brings forth the items `next a` when it is used up. The
generations of a bag are `hops`; if one of them is empty the bag burns down,
and `total` counts all items that there will ever be.

Using up one item of a bag, whichever, lowers the total
(`total_erase_lt`), and dropping one does so as well. A bag whose
generations never end has an item whose offspring never ends
(`exists_hops_ne_nil`).
-/

namespace AsyncSqlite

universe u

variable {α : Type u} (next : α → List α)

/-- The generation `d` of a bag. -/
def hops : ℕ → List α → List α
  | 0, l => l
  | d + 1, l => hops d (l.flatMap next)

/-- The number of items in the first `d` generations. -/
def total : ℕ → List α → ℕ
  | 0, _ => 0
  | d + 1, l => l.length + total d (l.flatMap next)

variable {next} {l l' : List α} {a : α} {d : ℕ}

theorem hops_append (d : ℕ) (l l' : List α) :
    hops next d (l ++ l') = hops next d l ++ hops next d l' := by
  induction d generalizing l l' with
  | zero => rfl
  | succ d ih => simp only [hops, List.flatMap_append, ih]

variable (next) in
theorem total_append (d : ℕ) (l l' : List α) :
    total next d (l ++ l') = total next d l + total next d l' := by
  induction d generalizing l l' with
  | zero => rfl
  | succ d ih =>
    simp only [total, List.flatMap_append, List.length_append, ih]
    omega

theorem hops_nil (d : ℕ) : hops next d [] = [] := by
  induction d with
  | zero => rfl
  | succ d ih => exact ih

variable (next) in
theorem hops_perm (h : l.Perm l') (d : ℕ) : (hops next d l).Perm (hops next d l') := by
  induction d generalizing l l' with
  | zero => exact h
  | succ d ih => exact ih (h.flatMap_right next)

theorem total_perm (h : l.Perm l') (d : ℕ) : total next d l = total next d l' := by
  induction d generalizing l l' with
  | zero => rfl
  | succ d ih =>
    simp only [total]
    rw [h.length_eq, ih (h.flatMap_right next)]

/-- Once a generation is empty, so are the later ones. -/
theorem hops_succ (h : hops next d l = []) : hops next (d + 1) l = [] := by
  induction d generalizing l with
  | zero =>
    have hl : l = [] := h
    rw [hl]
    rfl
  | succ d ih => exact ih h

/-- Counting further generations than there are adds nothing. -/
theorem total_succ (h : hops next d l = []) : total next (d + 1) l = total next d l := by
  induction d generalizing l with
  | zero =>
    have hl : l = [] := h
    rw [hl]
    rfl
  | succ d ih =>
    have hih := ih (l := l.flatMap next) h
    simp only [total] at hih ⊢
    omega

variable [DecidableEq α]

/-- What burns down still does so when an item is used up or dropped. -/
theorem hops_erase (h : hops next d l = []) (ha : a ∈ l) {offspring : List α}
    (hoff : offspring = next a ∨ offspring = []) : hops next d (l.erase a ++ offspring) = [] := by
  have hsplit := (hops_perm next (List.perm_cons_erase ha) d).symm
  rw [h, List.perm_nil, ← List.singleton_append, hops_append, List.append_eq_nil_iff] at hsplit
  rw [hops_append, hsplit.2, List.nil_append]
  rcases hoff with rfl | rfl
  · -- the offspring of the item is one of its later generations
    have hlater := hops_succ hsplit.1
    simpa [hops] using hlater
  · exact hops_nil d

theorem total_erase_lt (h : hops next d l = []) (ha : a ∈ l) {offspring : List α}
    (hoff : offspring = next a ∨ offspring = []) :
    total next d (l.erase a ++ offspring) < total next d l := by
  have hsplit := (hops_perm next (List.perm_cons_erase ha) d).symm
  rw [h, List.perm_nil, ← List.singleton_append, hops_append, List.append_eq_nil_iff] at hsplit
  rw [total_perm (List.perm_cons_erase ha) d, ← List.singleton_append, total_append, total_append]
  have hone : 1 + total next d (next a) = total next d [a] := by
    have hmore := total_succ hsplit.1
    simpa [total] using hmore
  rcases hoff with rfl | rfl
  · omega
  · have hnil : total next d ([] : List α) = 0 := by
      have hdouble := total_append next d [] []
      rw [List.append_nil] at hdouble
      omega
    omega

omit [DecidableEq α] in
theorem exists_hops_ne_nil (h : hops next (d + 1) l ≠ []) : ∃ a ∈ l, hops next d (next a) ≠ [] := by
  induction l with
  | nil => exact absurd (hops_nil (d + 1)) h
  | cons b l ih =>
    by_cases hb : hops next d (next b) = []
    · have hrest : hops next (d + 1) l ≠ [] := by
        intro hnil
        apply h
        rw [← List.singleton_append, hops_append, hnil, List.append_nil]
        simpa [hops] using hb
      rcases ih hrest with ⟨a, ha, hne⟩
      exact ⟨a, List.mem_cons_of_mem _ ha, hne⟩
    · exact ⟨b, List.mem_cons_self .., hb⟩

omit [DecidableEq α] in
/-- A bag that holds the offspring of an item outlives it. -/
theorem hops_ne_nil_of_subset {l' l'' : List α} (hperm : l'.Perm (l'' ++ l))
    (h : hops next d l ≠ []) : hops next d l' ≠ [] := by
  intro hnil
  have hp := hops_perm next hperm d
  rw [hnil, hops_append] at hp
  have hall := List.nil_perm.mp hp
  exact h (List.append_eq_nil_iff.mp hall).2

omit [DecidableEq α] in
/-- Items of a kind each of which brings forth one of its kind never die out. -/
theorem hops_ne_nil_of_cycle {P : α → Prop} (hnext : ∀ a, P a → ∃ b ∈ next a, P b) (ha : P a)
    (hmem : a ∈ l) (d : ℕ) : hops next d l ≠ [] := by
  induction d generalizing a l with
  | zero => exact List.ne_nil_of_mem hmem
  | succ d ih =>
    rcases hnext a ha with ⟨b, hb, hP⟩
    exact ih hP (List.mem_flatMap.mpr ⟨a, hmem, hb⟩)

end AsyncSqlite
