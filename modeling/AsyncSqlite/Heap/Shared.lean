import Mathlib.Data.Finset.Basic
import Mathlib.Logic.Function.Basic
import Mathlib.Tactic.Common

/-!
# AsyncSqlite.Heap.Shared — objects with shared ownership

Reference-counted objects `ι` and the owners `ω` that hold a pointer to each of
them. The use count of an object is the number of its owners; the object is
destroyed, and every weak pointer to it expires, when the last owner goes.

Ownership is gained only from an owner (`copy`), so an object that has been
destroyed stays so (`expired_copy`, `expired_release`).
-/

namespace AsyncSqlite

universe u v

variable {ι : Type u} {ω : Type v}

/-- Who owns each object. -/
abbrev Owners (ι : Type u) (ω : Type v) : Type (max u v) := ι → Finset ω

namespace Owners

/-- No owner is left. -/
def expired (o : Owners ι ω) (i : ι) : Prop := o i = ∅

instance [DecidableEq ω] (o : Owners ι ω) (i : ι) : Decidable (o.expired i) :=
  inferInstanceAs (Decidable (_ = _))

variable {o : Owners ι ω} {i j : ι} {a b c : ω} {is : List ι}

theorem expired_iff : o.expired i ↔ ∀ c, c ∉ o i := Finset.eq_empty_iff_forall_notMem

theorem not_expired_iff : ¬ o.expired i ↔ ∃ c, c ∈ o i := by
  rw [expired_iff]
  push Not
  rfl

variable [DecidableEq ι]

/-- A new object with its first owner. -/
def create (o : Owners ι ω) (i : ι) (a : ω) : Owners ι ω := Function.update o i {a}

theorem mem_create : c ∈ o.create i a j ↔ j = i ∧ c = a ∨ j ≠ i ∧ c ∈ o j := by
  unfold create
  by_cases hj : j = i
  · subst hj
    simp
  · simp [hj]

variable [DecidableEq ω]

/-- The owner `a`, if it is one, lets `b` have a pointer too. -/
def copy (o : Owners ι ω) (i : ι) (a b : ω) : Owners ι ω :=
  if a ∈ o i then Function.update o i (insert b (o i)) else o

/-- `a` lets go of each of the objects. -/
def release (o : Owners ι ω) (is : List ι) (a : ω) : Owners ι ω :=
  fun i => if i ∈ is then (o i).erase a else o i

theorem mem_copy : c ∈ o.copy i a b j ↔ c ∈ o j ∨ j = i ∧ c = b ∧ a ∈ o i := by
  unfold copy
  by_cases ha : a ∈ o i
  · by_cases hj : j = i
    · subst hj
      simp [ha, or_comm]
    · simp [ha, hj]
  · simp [ha]

theorem mem_release : c ∈ o.release is a j ↔ c ∈ o j ∧ ¬ (j ∈ is ∧ c = a) := by
  unfold release
  by_cases hj : j ∈ is
  · simp [hj, and_comm]
  · simp [hj]

/-- Copying revives nothing. -/
theorem expired_copy : (o.copy i a b).expired j ↔ o.expired j := by
  rw [expired_iff, expired_iff]
  constructor
  · intro h c hc
    exact h c (mem_copy.mpr (Or.inl hc))
  · intro h c hc
    rcases mem_copy.mp hc with hc | ⟨rfl, -, ha⟩
    · exact h c hc
    · exact h a ha

theorem expired_release (h : o.expired j) : (o.release is a).expired j := by
  rw [expired_iff] at h ⊢
  intro c hc
  exact h c (mem_release.mp hc).1

end Owners

end AsyncSqlite
