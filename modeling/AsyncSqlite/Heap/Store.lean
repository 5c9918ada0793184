import Mathlib.Data.List.Nodup
import Mathlib.Logic.Function.Basic
import Mathlib.Tactic.Common

/-!
# AsyncSqlite.Heap.Store — blocks that are allocated and freed

A store of blocks with contents `A`. An address is never used again, so to free
a block twice, or to use one that was freed, is an access to an address that
holds nothing: there is no next store.

* `freeAll` says when a list of frees goes through (`freeAll_iff`): no address
  is listed twice and each holds a block.
* `Grows h h' l`: the blocks `l` were allocated between two stores and all
  others are as they were.
-/

namespace AsyncSqlite

universe u

/-- The blocks, and the first address that was never used. -/
structure Store (A : Type u) where
  cell : ℕ → Option A
  next : ℕ
  fresh : ∀ a, next ≤ a → cell a = none

namespace Store

variable {A : Type u}

def empty : Store A where
  cell := fun _ => none
  next := 0
  fresh _ _ := rfl

/-- The address holds a block. -/
def Live (h : Store A) (a : ℕ) : Prop := (h.cell a).isSome = true

instance (h : Store A) (a : ℕ) : Decidable (h.Live a) := inferInstanceAs (Decidable (_ = _))

/-- A new block, and the store with it. -/
def alloc (h : Store A) (x : A) : ℕ × Store A :=
  (h.next,
    { cell := Function.update h.cell h.next (some x)
      next := h.next + 1
      fresh := by
        intro a ha
        rw [Function.update_of_ne (by omega)]
        exact h.fresh a (by omega) })

/-- The store once `x` was written to `a`. -/
def set (h : Store A) (a : ℕ) (x : A) : Option (Store A) :=
  if hl : h.Live a then
    some
      { cell := Function.update h.cell a (some x)
        next := h.next
        fresh := by
          intro b hb
          have hne : b ≠ a := by
            rintro rfl
            rw [Live, h.fresh b hb] at hl
            cases hl
          rw [Function.update_of_ne hne]
          exact h.fresh b hb }
  else none

/-- The store without the block at `a`. -/
def free (h : Store A) (a : ℕ) : Option (Store A) :=
  if h.Live a then
    some
      { cell := Function.update h.cell a none
        next := h.next
        fresh := by
          intro b hb
          by_cases hne : b = a
          · rw [hne, Function.update_self]
          · rw [Function.update_of_ne hne]
            exact h.fresh b hb }
  else none

/-- The frees of a list of addresses, in order. -/
def freeAll (h : Store A) : List ℕ → Option (Store A)
  | [] => some h
  | a :: l => (h.free a).bind fun h' => h'.freeAll l

variable {h h' h'' : Store A} {a b : ℕ} {x y : A} {l l' : List ℕ}

theorem live_iff : h.Live a ↔ ∃ x, h.cell a = some x := Option.isSome_iff_exists

theorem live_of_cell (hx : h.cell a = some x) : h.Live a := live_iff.mpr ⟨x, hx⟩

theorem not_live_iff : ¬ h.Live a ↔ h.cell a = none := by
  simp [Live]

theorem Live.lt_next (hl : h.Live a) : a < h.next := by
  by_contra hle
  rw [Live, h.fresh a (by omega)] at hl
  cases hl

/-! ## One operation -/

@[simp]
theorem alloc_fst : (h.alloc x).1 = h.next := rfl

@[simp]
theorem alloc_next : (h.alloc x).2.next = h.next + 1 := rfl

@[simp]
theorem alloc_self : (h.alloc x).2.cell h.next = some x := Function.update_self ..

theorem alloc_of_ne (hne : a ≠ h.next) : (h.alloc x).2.cell a = h.cell a :=
  Function.update_of_ne hne ..

theorem set_spec (hset : h.set a x = some h') :
    h.Live a ∧ h'.next = h.next ∧ h'.cell = Function.update h.cell a (some x) := by
  unfold set at hset
  split at hset
  · rename_i hl
    cases hset
    exact ⟨hl, rfl, rfl⟩
  · cases hset

theorem set_of_live (hl : h.Live a) (x : A) : ∃ h', h.set a x = some h' := by
  unfold set
  rw [dif_pos hl]
  exact ⟨_, rfl⟩

theorem free_spec (hfree : h.free a = some h') :
    h.Live a ∧ h'.next = h.next ∧ h'.cell = Function.update h.cell a none := by
  unfold free at hfree
  split at hfree
  · rename_i hl
    cases hfree
    exact ⟨hl, rfl, rfl⟩
  · cases hfree

theorem free_of_live (hl : h.Live a) : ∃ h', h.free a = some h' := by
  unfold free
  rw [if_pos hl]
  exact ⟨_, rfl⟩

theorem live_set (hset : h.set a x = some h') : h'.Live b ↔ h.Live b := by
  rcases set_spec hset with ⟨hl, -, hcell⟩
  by_cases hb : b = a
  · subst hb
    exact ⟨fun _ => hl, fun _ => live_of_cell (by rw [hcell, Function.update_self])⟩
  · rw [Live, hcell, Function.update_of_ne hb, Live]

/-! ## Frees -/

/-- What a list of frees needs, and what it leaves. -/
theorem freeAll_spec (hfree : h.freeAll l = some h') :
    l.Nodup ∧ (∀ a ∈ l, h.Live a) ∧ h'.next = h.next ∧
      ∀ a, h'.cell a = if a ∈ l then none else h.cell a := by
  induction l generalizing h with
  | nil =>
    cases hfree
    exact ⟨List.nodup_nil, by simp, rfl, by simp⟩
  | cons b l ih =>
    rcases Option.bind_eq_some_iff.mp hfree with ⟨h₁, hb, hrest⟩
    rcases free_spec hb with ⟨hl, hnext, hcell⟩
    rcases ih hrest with ⟨hnodup, hlive, hnext', hcell'⟩
    have hgone : ¬ h₁.Live b := by
      rw [not_live_iff, hcell, Function.update_self]
    have hnot : b ∉ l := fun hmem => hgone (hlive b hmem)
    refine ⟨List.nodup_cons.mpr ⟨hnot, hnodup⟩, ?_, hnext'.trans hnext, ?_⟩
    · intro a ha
      rcases List.mem_cons.mp ha with rfl | ha
      · exact hl
      · have hne : a ≠ b := fun heq => hnot (heq ▸ ha)
        have hla := hlive a ha
        rwa [Live, hcell, Function.update_of_ne hne] at hla
    · intro a
      rw [hcell' a, hcell]
      by_cases hne : a = b
      · simp [hne]
      · simp [hne]

/-- Frees go through exactly if each is of another live block. -/
theorem freeAll_iff :
    (∃ h', h.freeAll l = some h') ↔ l.Nodup ∧ ∀ a ∈ l, h.Live a := by
  constructor
  · rintro ⟨h', hfree⟩
    rcases freeAll_spec hfree with ⟨hnodup, hlive, -⟩
    exact ⟨hnodup, hlive⟩
  · induction l generalizing h with
    | nil => exact fun _ => ⟨h, rfl⟩
    | cons b l ih =>
      rintro ⟨hnodup, hlive⟩
      rcases List.nodup_cons.mp hnodup with ⟨hnot, hnodup'⟩
      rcases free_of_live (hlive b (List.mem_cons_self ..)) with ⟨h₁, hb⟩
      rcases free_spec hb with ⟨-, -, hcell⟩
      have hlive₁ : ∀ a ∈ l, h₁.Live a := by
        intro a ha
        have hne : a ≠ b := fun heq => hnot (heq ▸ ha)
        rw [Live, hcell, Function.update_of_ne hne]
        exact hlive a (List.mem_cons_of_mem _ ha)
      rcases ih ⟨hnodup', hlive₁⟩ with ⟨h', hrest⟩
      exact ⟨h', by simp [freeAll, hb, hrest]⟩

theorem freeAll_append : h.freeAll (l ++ l') = (h.freeAll l).bind fun h' => h'.freeAll l' := by
  induction l generalizing h with
  | nil => rfl
  | cons b l ih =>
    simp only [List.cons_append, freeAll, Option.bind_assoc]
    congr 1
    funext h'
    exact ih

/-! ## What was allocated in between -/

/-- The blocks `l` are new in `h'`; the addresses of `h` are as they were. -/
structure Grows (h h' : Store A) (l : List ℕ) : Prop where
  next : h.next ≤ h'.next
  old : ∀ a, a < h.next → h'.cell a = h.cell a
  new : ∀ a, a ∈ l ↔ h.next ≤ a ∧ h'.Live a
  nodup : l.Nodup

namespace Grows

theorem refl (h : Store A) : Grows h h [] where
  next := Nat.le_refl _
  old _ _ := rfl
  new a := by
    constructor
    · intro ha
      cases ha
    · rintro ⟨hle, hl⟩
      exact absurd hl.lt_next (by omega)
  nodup := List.nodup_nil

theorem alloc (h : Store A) (x : A) : Grows h (h.alloc x).2 [h.next] where
  next := by simp
  old a ha := alloc_of_ne (by omega)
  new a := by
    rw [List.mem_singleton]
    constructor
    · rintro rfl
      exact ⟨Nat.le_refl _, live_of_cell alloc_self⟩
    · rintro ⟨hle, hl⟩
      have hlt := hl.lt_next
      rw [alloc_next] at hlt
      omega
  nodup := List.nodup_singleton _

theorem live (hg : Grows h h' l) (ha : a ∈ l) : h'.Live a := ((hg.new a).mp ha).2

theorem ge (hg : Grows h h' l) (ha : a ∈ l) : h.next ≤ a := ((hg.new a).mp ha).1

/-- What was live is so still, with the same contents. -/
theorem cell_of_live (hg : Grows h h' l) (hl : h.Live a) : h'.cell a = h.cell a :=
  hg.old a hl.lt_next

theorem trans (hg : Grows h h' l) (hg' : Grows h' h'' l') : Grows h h'' (l ++ l') where
  next := Nat.le_trans hg.next hg'.next
  old a ha := (hg'.old a (Nat.lt_of_lt_of_le ha hg.next)).trans (hg.old a ha)
  new a := by
    rw [List.mem_append]
    constructor
    · rintro (ha | ha)
      · refine ⟨hg.ge ha, ?_⟩
        have hl := hg.live ha
        rwa [Live, hg'.cell_of_live hl]
      · exact ⟨Nat.le_trans hg.next (hg'.ge ha), hg'.live ha⟩
    · rintro ⟨hle, hl⟩
      by_cases hlt : a < h'.next
      · rw [Live, hg'.old a hlt] at hl
        exact Or.inl ((hg.new a).mpr ⟨hle, hl⟩)
      · exact Or.inr ((hg'.new a).mpr ⟨by omega, hl⟩)
  nodup := by
    refine List.Nodup.append hg.nodup hg'.nodup ?_
    intro a ha ha'
    have hlt := (hg.live ha).lt_next
    have hge := hg'.ge ha'
    omega

theorem perm (hg : Grows h h' l) (hp : l.Perm l') : Grows h h' l' where
  next := hg.next
  old := hg.old
  new a := by rw [← hp.mem_iff, hg.new a]
  nodup := hp.nodup_iff.mp hg.nodup

theorem set (hg : Grows h h' l) (ha : a ∈ l) (hset : h'.set a x = some h'') :
    Grows h h'' l where
  next := by
    rw [(set_spec hset).2.1]
    exact hg.next
  old b hb := by
    have hne : b ≠ a := by
      rintro rfl
      exact absurd (hg.ge ha) (by omega)
    rw [(set_spec hset).2.2, Function.update_of_ne hne]
    exact hg.old b hb
  new b := by rw [hg.new b, live_set hset]
  nodup := hg.nodup

/-- Some of the new blocks are freed again. -/
theorem freeAll (hg : Grows h h' (l ++ l')) (hfree : h'.freeAll l = some h'') :
    Grows h h'' l' where
  next := by
    rw [(freeAll_spec hfree).2.2.1]
    exact hg.next
  old a ha := by
    have hnot : a ∉ l := by
      intro hmem
      exact absurd (hg.ge (List.mem_append_left _ hmem)) (by omega)
    rw [(freeAll_spec hfree).2.2.2 a, if_neg hnot]
    exact hg.old a ha
  new a := by
    have hdisj := List.disjoint_of_nodup_append hg.nodup
    have hcell := (freeAll_spec hfree).2.2.2 a
    have hmem := hg.new a
    rw [List.mem_append] at hmem
    by_cases ha : a ∈ l
    · rw [if_pos ha] at hcell
      constructor
      · intro ha'
        exact absurd ha' (hdisj ha)
      · rintro ⟨-, hl⟩
        exact absurd hcell (by rw [← not_live_iff]; exact fun h => h hl)
    · rw [if_neg ha] at hcell
      rw [Live, hcell, ← Live, ← hmem]
      simp [ha]
  nodup := List.Nodup.of_append_right hg.nodup

/-- All of the new blocks are freed again. -/
theorem freeAll_self (hg : Grows h h' l) (hfree : h'.freeAll l = some h'') : Grows h h'' [] := by
  rw [← List.append_nil l] at hg
  exact hg.freeAll hfree

end Grows

end Store

end AsyncSqlite
