import Mathlib.Data.List.Nodup
import Mathlib.Data.List.Sublists
import Mathlib.Data.List.Perm.Basic
import Mathlib.Tactic.Common

/-!
# AsyncSqlite.Lts.History — facts about histories that only grow

Three notions on the lists in which a system records what happened:

* `Precedes l x y` — `x` was recorded before `y`;
* `ClassFifo` — a queue that keeps one FIFO per class, described by what was
  pushed, what was removed and what is still queued;
* `Grouped f l` — the entries of one key form a contiguous block.

A history grows at its end, so each notion comes with a rule for appending one
entry, which is all that a step of a system needs.
-/

namespace AsyncSqlite

universe u v

variable {α : Type u} {κ : Type v}

/-! ## Order of recording -/

/-- `x` occurs before `y` in `l`. -/
def Precedes (l : List α) (x y : α) : Prop := [x, y].Sublist l

theorem Precedes.mem_right {l : List α} {x y : α} (h : Precedes l x y) : y ∈ l :=
  h.subset (List.mem_cons_of_mem _ List.mem_cons_self)

theorem Precedes.sublist {l l' : List α} {x y : α} (h : Precedes l x y) (hl : l.Sublist l') :
    Precedes l' x y :=
  h.trans hl

theorem Precedes.append {l : List α} {x y : α} (h : Precedes l x y) (l' : List α) :
    Precedes (l ++ l') x y :=
  h.sublist (List.sublist_append_left l l')

theorem Precedes.map {β : Type v} {l : List α} {x y : α} (h : Precedes l x y) (f : α → β) :
    Precedes (l.map f) (f x) (f y) :=
  List.Sublist.map f h

/-- What is already recorded precedes what is appended. -/
theorem precedes_concat {l : List α} {x : α} (hx : x ∈ l) (y : α) :
    Precedes (l ++ [y]) x y :=
  List.Sublist.append (List.singleton_sublist.mpr hx) (List.Sublist.refl [y])

/-- A part of a history that lacks the last entry lies in front of it. -/
theorem sublist_of_concat {l front : List α} {x : α} (h : l.Sublist (front ++ [x])) (hx : x ∉ l) :
    l.Sublist front := by
  rcases List.sublist_append_iff.mp h with ⟨l₁, l₂, rfl, h₁, h₂⟩
  have hnil : l₂ = [] := by
    rcases List.sublist_singleton.mp h₂ with hnil | hone
    · exact hnil
    · exact absurd (List.mem_append_right l₁ (by simp [hone])) hx
  rw [hnil, List.append_nil]
  exact h₁

/-- In a history without repetitions the order is strict. -/
theorem Precedes.asymm {l : List α} (hn : l.Nodup) {x y : α} (h : Precedes l x y) :
    ¬ Precedes l y x := by
  induction l with
  | nil => exact absurd h (by simp [Precedes])
  | cons a t ih =>
    have ha : a ∉ t := (List.nodup_cons.mp hn).1
    have ht : t.Nodup := (List.nodup_cons.mp hn).2
    intro h'
    rcases List.sublist_cons_iff.mp h with hxy | ⟨r, hr, hrt⟩
    · rcases List.sublist_cons_iff.mp h' with hyx | ⟨r', hr', hrt'⟩
      · exact ih ht hxy hyx
      · -- `y` is the head, but it also lies in the tail
        have hya : y = a := (List.cons.inj hr').1
        exact ha (hya ▸ Precedes.mem_right hxy)
    · have hxa : x = a := (List.cons.inj hr).1
      rcases List.sublist_cons_iff.mp h' with hyx | ⟨r', hr', hrt'⟩
      · exact ha (hxa ▸ Precedes.mem_right hyx)
      · have hya : y = a := (List.cons.inj hr').1
        have hy : y ∈ t := List.singleton_sublist.mp ((List.cons.inj hr).2 ▸ hrt)
        exact ha (hya ▸ hy)

/-- Two different recorded entries are recorded in one of the two orders. -/
theorem precedes_total {l : List α} {x y : α} (hx : x ∈ l) (hy : y ∈ l) (hne : x ≠ y) :
    Precedes l x y ∨ Precedes l y x := by
  induction l with
  | nil => cases hx
  | cons a t ih =>
    rcases List.mem_cons.mp hx with rfl | hxt
    · have hyt : y ∈ t := (List.mem_cons.mp hy).resolve_left fun h => hne h.symm
      exact Or.inl (List.Sublist.cons_cons x (List.singleton_sublist.mpr hyt))
    · rcases List.mem_cons.mp hy with rfl | hyt
      · exact Or.inr (List.Sublist.cons_cons y (List.singleton_sublist.mpr hxt))
      · rcases ih hxt hyt with h | h
        · exact Or.inl (h.cons a)
        · exact Or.inr (h.cons a)

/-! ## A queue with one FIFO per class -/

section ClassFifo

variable [DecidableEq κ] (cls : α → κ)

/-- The entries of class `k`, in order. -/
def ofClass (k : κ) (l : List α) : List α := l.filter fun a => cls a = k

@[simp] theorem ofClass_append (k : κ) (l l' : List α) :
    ofClass cls k (l ++ l') = ofClass cls k l ++ ofClass cls k l' := by
  simp [ofClass]

theorem ofClass_singleton (k : κ) (a : α) :
    ofClass cls k [a] = if cls a = k then [a] else [] := by
  by_cases h : cls a = k <;> simp [ofClass, h]

theorem mem_ofClass {k : κ} {l : List α} {a : α} :
    a ∈ ofClass cls k l ↔ a ∈ l ∧ cls a = k := by
  simp [ofClass]

theorem ofClass_sublist (k : κ) (l : List α) : (ofClass cls k l).Sublist l :=
  List.filter_sublist

/-- Lists that agree class by class are permutations of each other. -/
theorem perm_of_ofClass {l l' : List α} (h : ∀ k, ofClass cls k l = ofClass cls k l') :
    l.Perm l' := by
  classical
  rw [List.perm_iff_count]
  intro a
  have hcount : ∀ m : List α, List.count a (ofClass cls (cls a) m) = List.count a m := by
    intro m
    exact List.count_filter (by simp)
  rw [← hcount l, ← hcount l', h (cls a)]

/-- The history of a queue that keeps one FIFO per class: class by class, what
was pushed is what was removed followed by what is queued. -/
structure ClassFifo (pushed removed : List α) (queue : κ → List α) : Prop where
  log : ∀ k, ofClass cls k pushed = ofClass cls k removed ++ queue k

variable {cls}

namespace ClassFifo

variable {pushed removed : List α} {queue queue' : κ → List α}

theorem nil (h : ∀ k, queue k = []) : ClassFifo cls [] [] queue := by
  constructor
  intro k
  simp [ofClass, h k]

/-- Push at the end of the entry's own class. -/
theorem push (h : ClassFifo cls pushed removed queue) (a : α)
    (hq : ∀ k, queue' k = queue k ++ ofClass cls k [a]) :
    ClassFifo cls (pushed ++ [a]) removed queue' := by
  constructor
  intro k
  rw [ofClass_append, h.log k, hq k, List.append_assoc]

/-- Remove a prefix of every class queue, in any order between the classes. -/
theorem remove (h : ClassFifo cls pushed removed queue) (out : List α)
    (hq : ∀ k, queue k = ofClass cls k out ++ queue' k) :
    ClassFifo cls pushed (removed ++ out) queue' := by
  constructor
  intro k
  rw [ofClass_append, h.log k, hq k, List.append_assoc]

/-- Nothing is lost or invented: what was pushed is what was removed together
with any listing of what is queued. -/
theorem perm (h : ClassFifo cls pushed removed queue) {rest : List α}
    (hr : ∀ k, ofClass cls k rest = queue k) : pushed.Perm (removed ++ rest) := by
  apply perm_of_ofClass cls
  intro k
  rw [ofClass_append, hr k, h.log k]

/-- What was removed was pushed, as often. -/
theorem subperm (h : ClassFifo cls pushed removed queue) : List.Subperm removed pushed := by
  classical
  rw [List.subperm_ext_iff]
  intro a _
  have hcount : ∀ m : List α, List.count a (ofClass cls (cls a) m) = List.count a m :=
    fun m => List.count_filter (by simp)
  rw [← hcount removed, ← hcount pushed, h.log (cls a), List.count_append]
  exact Nat.le_add_right _ _

theorem mem_of_queue (h : ClassFifo cls pushed removed queue) {k : κ} {a : α}
    (ha : a ∈ queue k) : a ∈ pushed ∧ cls a = k := by
  have hmem : a ∈ ofClass cls k pushed := by
    rw [h.log k]
    exact List.mem_append_right _ ha
  exact (mem_ofClass cls).mp hmem

/-- A queue of one class, seen class by class. -/
theorem ofClass_queue (h : ClassFifo cls pushed removed queue) (j k : κ) :
    ofClass cls j (queue k) = if j = k then queue k else [] := by
  have hcls : ∀ a ∈ queue k, cls a = k := fun a ha => (h.mem_of_queue ha).2
  by_cases hjk : j = k
  · subst hjk
    rw [if_pos rfl]
    exact List.filter_eq_self.mpr fun a ha => by simpa using hcls a ha
  · rw [if_neg hjk]
    refine List.filter_eq_nil_iff.mpr fun a ha => ?_
    simpa [hcls a ha] using Ne.symm hjk

/-- Within a class entries leave in the order of their pushes. -/
theorem removed_prefix (h : ClassFifo cls pushed removed queue) (k : κ) :
    ofClass cls k removed <+: ofClass cls k pushed :=
  ⟨queue k, (h.log k).symm⟩

theorem mem_of_removed (h : ClassFifo cls pushed removed queue) {a : α} (ha : a ∈ removed) :
    a ∈ pushed := by
  have hmem : a ∈ ofClass cls (cls a) removed := (mem_ofClass cls).mpr ⟨ha, rfl⟩
  exact ((mem_ofClass cls).mp ((h.removed_prefix (cls a)).subset hmem)).1

/-- Every pushed entry is removed or queued. -/
theorem mem_pushed (h : ClassFifo cls pushed removed queue) {a : α} (ha : a ∈ pushed) :
    a ∈ removed ∨ a ∈ queue (cls a) := by
  have hmem : a ∈ ofClass cls (cls a) pushed := (mem_ofClass cls).mpr ⟨ha, rfl⟩
  rw [h.log (cls a)] at hmem
  rcases List.mem_append.mp hmem with hr | hq
  · exact Or.inl ((mem_ofClass cls).mp hr).1
  · exact Or.inr hq

end ClassFifo

end ClassFifo

/-! ## Contiguous blocks -/

/-- For every key, the entries with that key form one contiguous block. -/
def Grouped (f : α → κ) (l : List α) : Prop :=
  ∀ k, ∃ a b c, l = a ++ b ++ c ∧ (∀ x ∈ b, f x = k) ∧ ∀ x ∈ a ++ c, f x ≠ k

theorem grouped_nil (f : α → κ) : Grouped f [] :=
  fun _ => ⟨[], [], [], by simp, by simp, by simp⟩

/-- An appended entry keeps the blocks contiguous if its key is new or is the
key of the entry before it. -/
theorem Grouped.concat {f : α → κ} {l : List α} (h : Grouped f l) {x : α}
    (hx : (∀ y ∈ l, f y ≠ f x) ∨ ∃ l' y, l = l' ++ [y] ∧ f y = f x) :
    Grouped f (l ++ [x]) := by
  intro k
  rcases h k with ⟨a, b, c, hl, hb, hac⟩
  by_cases hk : f x = k
  · rcases hx with hnew | ⟨l', y, hly, hfy⟩
    · refine ⟨l, [x], [], by simp, by simpa using hk, ?_⟩
      intro y hy
      rw [← hk]
      exact hnew y (by simpa using hy)
    · -- the last entry has key `k`, so the block of `k` ends the list
      have hc : c = [] := by
        rcases List.eq_nil_or_concat c with hc | ⟨c', z, hc⟩
        · exact hc
        · have hz : z = y := by
            have heq : (a ++ b ++ c') ++ [z] = l' ++ [y] := by
              rw [← hly, hl, hc]
              simp
            exact (List.append_inj' heq rfl).2 |> List.cons.inj |>.1
          exact absurd (hz ▸ hfy.trans hk) (hac z (by simp [hc]))
      subst hc
      refine ⟨a, b ++ [x], [], by simp [hl], ?_, hac⟩
      intro z hz
      rcases List.mem_append.mp hz with hz | hz
      · exact hb z hz
      · rw [List.mem_singleton.mp hz]
        exact hk
  · refine ⟨a, b, c ++ [x], by simp [hl], hb, ?_⟩
    intro z hz
    rcases List.mem_append.mp hz with hz | hz
    · exact hac z (List.mem_append_left _ hz)
    · rcases List.mem_append.mp hz with hz | hz
      · exact hac z (List.mem_append_right _ hz)
      · rw [List.mem_singleton.mp hz]
        exact hk

end AsyncSqlite
