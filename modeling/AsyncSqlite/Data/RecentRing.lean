import Mathlib.Data.Fin.Basic
import Mathlib.Data.List.Basic
import Mathlib.Data.Int.ModEq
import Mathlib.Tactic.Common

/-!
# AsyncSqlite.Data.RecentRing — a ring that remembers the last values

A ring of `size` cells, each with a flag that says whether it was ever written.
`Holds r l` relates it to the list of everything that was pushed: the ring
contains exactly the last `size` values (`contains_iff`).

A filter that pushes a value only if the ring does not contain it lets equal
values through only at a distance (`Spaced`); `spaced_concat` is the step.
-/

namespace AsyncSqlite

universe u

structure RecentRing (α : Type u) (size : ℕ) where
  buffer : Fin size → α
  valid : Fin size → Bool
  head : Fin size

/-- The last `n` values of a history. -/
def recent {α : Type u} (n : ℕ) (l : List α) : List α := l.drop (l.length - n)

theorem mem_recent {α : Type u} {n : ℕ} {l : List α} {a : α} :
    a ∈ recent n l ↔ ∃ m, l[m]? = some a ∧ l.length ≤ m + n := by
  unfold recent
  rw [List.mem_iff_getElem?]
  constructor
  · rintro ⟨m, hm⟩
    rw [List.getElem?_drop] at hm
    exact ⟨_, hm, by omega⟩
  · rintro ⟨m, hm, hle⟩
    refine ⟨m - (l.length - n), ?_⟩
    rw [List.getElem?_drop, Nat.add_sub_cancel' (by omega), hm]

namespace RecentRing

variable {α : Type u} {size : ℕ} [NeZero size] {r : RecentRing α size} {l : List α} {a : α}

def empty [Inhabited α] : RecentRing α size := ⟨fun _ => default, fun _ => false, 0⟩

def contains [DecidableEq α] (r : RecentRing α size) (a : α) : Bool :=
  decide (∃ i, r.valid i = true ∧ r.buffer i = a)

def push (r : RecentRing α size) (a : α) : RecentRing α size :=
  ⟨Function.update r.buffer r.head a, Function.update r.valid r.head true, r.head + 1⟩

/-- The ring after the values of `l` were pushed. -/
structure Holds (r : RecentRing α size) (l : List α) : Prop where
  head : r.head.val = l.length % size
  valid : ∀ i, r.valid i = true ↔ i.val < l.length
  buffer : ∀ m a, l[m]? = some a → l.length ≤ m + size → r.buffer (Fin.ofNat size m) = a

theorem holds_empty [Inhabited α] : Holds (empty : RecentRing α size) [] := by
  constructor
  · rfl
  · intro i
    simp [empty]
  · intro m a h
    simp at h

theorem Holds.push (h : Holds r l) (a : α) : Holds (r.push a) (l ++ [a]) := by
  have hsize : 0 < size := Nat.pos_of_ne_zero (NeZero.ne size)
  constructor
  · show (r.head + 1).val = (l ++ [a]).length % size
    have hone : (1 : Fin size).val = 1 % size := rfl
    rw [Fin.val_add, h.head, List.length_append, List.length_singleton, hone, ← Nat.add_mod]
  · intro i
    show Function.update r.valid r.head true i = true ↔ _
    rw [List.length_append, List.length_singleton]
    by_cases hi : i = r.head
    · subst hi
      rw [Function.update_self, h.head]
      have hle := Nat.mod_le l.length size
      simp only [true_iff]
      omega
    · rw [Function.update_of_ne hi, h.valid]
      -- the cell after the last one written is the head
      have hne : i.val ≠ l.length := by
        intro heq
        apply hi
        apply Fin.ext
        rw [h.head, ← heq, Nat.mod_eq_of_lt i.isLt]
      omega
  · intro m b hm hle
    show Function.update r.buffer r.head a (Fin.ofNat size m) = b
    rw [List.length_append, List.length_singleton] at hle
    rcases lt_trichotomy m l.length with hlt | heq | hgt
    · have hne : Fin.ofNat size m ≠ r.head := by
        intro heq
        have hmod : m % size = l.length % size := by
          rw [← h.head, ← heq]
          rfl
        have hdvd : size ∣ l.length - m := (Nat.modEq_iff_dvd' hlt.le).mp hmod
        have hbound := Nat.le_of_dvd (by omega) hdvd
        omega
      rw [Function.update_of_ne hne]
      rw [List.getElem?_append_left hlt] at hm
      exact h.buffer m b hm (by omega)
    · have hcell : Fin.ofNat size m = r.head := by
        apply Fin.ext
        rw [h.head, heq]
        rfl
      rw [hcell, Function.update_self]
      rw [heq, List.getElem?_concat_length] at hm
      exact Option.some.inj hm
    · rw [List.getElem?_eq_none (by simp; omega)] at hm
      cases hm

/-- The ring contains the last `size` values that were pushed. -/
theorem Holds.contains_iff [DecidableEq α] (h : Holds r l) :
    r.contains a = true ↔ a ∈ recent size l := by
  unfold contains
  rw [decide_eq_true_eq, mem_recent]
  constructor
  · rintro ⟨i, hi, rfl⟩
    have hlt := (h.valid i).mp hi
    -- the last position that was written to this cell
    obtain ⟨m, hm, hlast, hmod⟩ : ∃ m < l.length, l.length ≤ m + size ∧ m % size = i.val := by
      refine ⟨i.val + size * ((l.length - 1 - i.val) / size), ?_, ?_, ?_⟩
      · have := Nat.mul_div_le (l.length - 1 - i.val) size
        omega
      · have := Nat.lt_mul_div_succ (l.length - 1 - i.val)
          (Nat.pos_of_ne_zero (NeZero.ne size))
        rw [Nat.mul_add, Nat.mul_one] at this
        omega
      · rw [Nat.add_mul_mod_self_left, Nat.mod_eq_of_lt i.isLt]
    refine ⟨m, ?_, hlast⟩
    have hget := List.getElem?_eq_getElem hm
    have hbuf := h.buffer m _ hget hlast
    have hcell : Fin.ofNat size m = i := Fin.ext hmod
    rw [hcell] at hbuf
    rw [hget, hbuf]
  · rintro ⟨m, hm, hlast⟩
    have hlt : m < l.length := by
      by_contra hge
      rw [List.getElem?_eq_none (not_lt.mp hge)] at hm
      cases hm
    refine ⟨Fin.ofNat size m, (h.valid _).mpr ?_, h.buffer m a hm hlast⟩
    exact lt_of_le_of_lt (Nat.mod_le m size) hlt

end RecentRing

/-! ## Values at a distance -/

/-- Equal values have at least `n` values between them. -/
def Spaced {α : Type u} (n : ℕ) (l : List α) : Prop :=
  ∀ front x mid back, l = front ++ x :: (mid ++ x :: back) → n ≤ mid.length

variable {α : Type u} {n : ℕ} {l : List α} {x : α}

theorem spaced_nil : Spaced n ([] : List α) := by
  intro front x mid back h
  simp at h

/-- A value keeps the distance if it is not among the last `n` ones. -/
theorem spaced_concat : Spaced n (l ++ [x]) ↔ Spaced n l ∧ x ∉ recent n l := by
  constructor
  · intro h
    refine ⟨fun front y mid back hl => h front y mid (back ++ [x]) (by simp [hl]), fun hx => ?_⟩
    obtain ⟨m, hm, hle⟩ := mem_recent.mp hx
    have hlt : m < l.length := by
      by_contra hge
      rw [List.getElem?_eq_none (not_lt.mp hge)] at hm
      cases hm
    have hget : l[m] = x := by
      rw [List.getElem?_eq_getElem hlt] at hm
      exact Option.some.inj hm
    -- an `x` among the last `n` values is too close to the new one
    have hsplit : l = l.take m ++ x :: l.drop (m + 1) := by
      rw [← hget, ← List.drop_eq_getElem_cons hlt, List.take_append_drop]
    have hdist := h (l.take m) x (l.drop (m + 1)) [] (by
      conv_lhs => rw [hsplit]
      simp)
    rw [List.length_drop] at hdist
    omega
  · rintro ⟨hl, hx⟩ front y mid back heq
    rcases List.eq_nil_or_concat back with rfl | ⟨back', z, rfl⟩
    · -- the second of the two is the new one
      have hend : l ++ [x] = (front ++ y :: mid) ++ [y] := by simp [heq]
      obtain ⟨rfl, hxy⟩ := List.append_inj' hend rfl
      obtain rfl : x = y := (List.cons.inj hxy).1
      by_contra hlt
      refine hx (mem_recent.mpr ⟨front.length, by simp, ?_⟩)
      simp only [List.length_append, List.length_cons]
      omega
    · -- both are in the old list
      have hend : l ++ [x] = (front ++ y :: (mid ++ y :: back')) ++ [z] := by simp [heq]
      exact hl front y mid back' (List.append_inj' hend rfl).1

end AsyncSqlite
