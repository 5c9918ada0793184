import Mathlib.Data.List.Basic
import Mathlib.Logic.Function.Basic

/-!
# AsyncSqlite.Data.Cells — an array with a list at its front

`Filled e a l`: the first cells of the array `a` are the list `l`, all others are `e`.
Appending writes the cell behind the list (`Filled.push`); removing an entry moves the
ones behind it down, one cell at a time (`shiftCells`, `Filled.shift_clear` and
`Filled.shift_hole`); emptying goes from the front (`Filled.pop`, for the array from some
cell on).
-/

namespace AsyncSqlite

universe u

variable {α : Type u} {e : α} {a b : ℕ → α} {l : List α} {i j k m : ℕ}

def Filled (e : α) (a : ℕ → α) (l : List α) : Prop := ∀ i, a i = l[i]?.getD e

/-- The content of cell `j + 1` goes to cell `j`, and leaves `e` behind. -/
def moveCell (e : α) (j : ℕ) (a : ℕ → α) : ℕ → α :=
  Function.update (Function.update a j (a (j + 1))) (j + 1) e

/-- `k` moves, from the cell `j` on. -/
def shiftCells (e : α) : ℕ → ℕ → (ℕ → α) → ℕ → α
  | 0, _, a => a
  | k + 1, j, a => shiftCells e k (j + 1) (moveCell e j a)

theorem moveCell_self : moveCell e j a j = a (j + 1) := by
  unfold moveCell
  rw [Function.update_of_ne (Nat.ne_of_lt (Nat.lt_succ_self j)), Function.update_self]

theorem moveCell_succ : moveCell e j a (j + 1) = e := Function.update_self ..

theorem moveCell_of_ne (hj : m ≠ j) (hsucc : m ≠ j + 1) : moveCell e j a m = a m := by
  unfold moveCell
  rw [Function.update_of_ne hsucc, Function.update_of_ne hj]

/-- The last of the cells apart, each has the content of the next one. -/
theorem shiftCells_apply (hm : m ≠ j + k) :
    shiftCells e k j a m = if j ≤ m ∧ m < j + k then a (m + 1) else a m := by
  induction k generalizing j a with
  | zero => rw [if_neg (by omega), shiftCells]
  | succ k ih =>
    rw [shiftCells, ih (by omega)]
    by_cases hin : j + 1 ≤ m ∧ m < j + 1 + k
    · rw [if_pos hin, if_pos (by omega), moveCell_of_ne (by omega) (by omega)]
    · rw [if_neg hin]
      by_cases hmj : m = j
      · subst hmj
        rw [if_pos (by omega), moveCell_self]
      · rw [if_neg (by omega), moveCell_of_ne hmj (by omega)]

/-- The last of the cells is left behind, if there was no hole before. -/
theorem shiftCells_last (hj : a j = e) : shiftCells e k j a (j + k) = e := by
  induction k generalizing j a with
  | zero => exact hj
  | succ k ih =>
    rw [shiftCells, show j + (k + 1) = j + 1 + k by omega]
    exact ih moveCell_succ

theorem Filled.nil : Filled e (fun _ => e) [] := by
  intro i
  rfl

theorem Filled.of_lt (h : Filled e a l) (hi : i < l.length) : a i = l[i] := by
  rw [h i, List.getElem?_eq_getElem hi, Option.getD_some]

theorem Filled.of_ge (h : Filled e a l) (hi : l.length ≤ i) : a i = e := by
  rw [h i, List.getElem?_eq_none hi, Option.getD_none]

theorem Filled.exists_of_mem (h : Filled e a l) {x : α} (hx : x ∈ l) :
    ∃ i, i < l.length ∧ a i = x := by
  rcases List.getElem_of_mem hx with ⟨i, hi, hix⟩
  refine ⟨i, hi, ?_⟩
  rw [h.of_lt hi, hix]

theorem Filled.map_range (h : Filled e a l) : (List.range l.length).map a = l := by
  apply List.ext_getElem
  · rw [List.length_map, List.length_range]
  · intro i _ hi
    rw [List.getElem_map, List.getElem_range]
    exact h.of_lt hi

/-- A search from the front finds the first entry. -/
theorem Filled.find_range [DecidableEq α] [BEq α] [LawfulBEq α] (h : Filled e a l) (x : α) :
    (List.range l.length).find? (fun i => a i = x) = l.idxOf? x := by
  cases hidx : l.idxOf? x with
  | none =>
    rw [List.idxOf?_eq_none_iff] at hidx
    rw [List.find?_eq_none]
    intro i hi hx
    rw [List.mem_range] at hi
    apply hidx
    rw [← of_decide_eq_true hx, h.of_lt hi]
    exact List.getElem_mem hi
  | some i =>
    rw [List.idxOf?_eq_some_iff] at hidx
    rcases hidx with ⟨hi, hx, hfirst⟩
    rw [List.find?_range_eq_some]
    refine ⟨?_, List.mem_range.mpr hi, ?_⟩
    · rw [h.of_lt hi, hx, decide_eq_true_iff]
    · intro j hj
      rw [h.of_lt (Nat.lt_trans hj hi), Bool.not_eq_true', decide_eq_false_iff_not]
      exact hfirst j hj

theorem Filled.push (h : Filled e a l) (x : α) :
    Filled e (Function.update a l.length x) (l ++ [x]) := by
  intro i
  rcases Nat.lt_trichotomy i l.length with hlt | heq | hgt
  · rw [Function.update_of_ne (Nat.ne_of_lt hlt), List.getElem?_append_left hlt]
    exact h i
  · subst heq
    rw [Function.update_self, List.getElem?_concat_length, Option.getD_some]
  · rw [Function.update_of_ne (Nat.ne_of_gt hgt), h.of_ge (Nat.le_of_lt hgt),
      List.getElem?_eq_none (by rw [List.length_append, List.length_singleton]; omega),
      Option.getD_none]

/-- Of an array from which the entry `i` was taken, and whose last entry is gone after the
shift. -/
theorem Filled.shift (h : Filled e a l) (hi : i < l.length) (hab : ∀ m, m ≠ i → b m = a m)
    {c : ℕ → α} (hc : ∀ m, m ≠ l.length - 1 → c m = shiftCells e (l.length - 1 - i) i b m)
    (hlast : c (l.length - 1) = e) : Filled e c (l.eraseIdx i) := by
  intro m
  rw [List.getElem?_eraseIdx]
  by_cases hm : m = l.length - 1
  · subst hm
    rw [hlast, if_neg (by omega), List.getElem?_eq_none (by omega), Option.getD_none]
  · rw [hc m hm, shiftCells_apply (by omega)]
    by_cases hmi : m < i
    · rw [if_neg (by omega), if_pos hmi, hab m (by omega)]
      exact h m
    · rw [if_neg hmi]
      by_cases hin : m < l.length - 1
      · rw [if_pos (by omega), hab (m + 1) (by omega)]
        exact h (m + 1)
      · rw [if_neg (by omega), hab m (by omega), h.of_ge (by omega),
          List.getElem?_eq_none (by omega), Option.getD_none]

/-- The entry is overwritten, and the last cell is emptied behind the shift. -/
theorem Filled.shift_clear (h : Filled e a l) (hi : i < l.length) :
    Filled e (Function.update (shiftCells e (l.length - 1 - i) i a) (l.length - 1) e)
      (l.eraseIdx i) := by
  refine h.shift hi (fun m _ => rfl) ?_ (Function.update_self ..)
  intro m hm
  exact Function.update_of_ne hm ..

/-- The entry is emptied first. -/
theorem Filled.shift_hole (h : Filled e a l) (hi : i < l.length) :
    Filled e (shiftCells e (l.length - 1 - i) i (Function.update a i e)) (l.eraseIdx i) := by
  refine h.shift (b := Function.update a i e) hi ?_ (fun m _ => rfl) ?_
  · intro m hm
    exact Function.update_of_ne hm ..
  · have hlast := shiftCells_last (k := l.length - 1 - i) (Function.update_self i e a)
    rw [show i + (l.length - 1 - i) = l.length - 1 by omega] at hlast
    exact hlast

/-- The array without its first entry, seen from the next cell on. -/
theorem Filled.pop {x : α} (h : Filled e (fun m => a (i + m)) (x :: l))
    (hb : ∀ m, i < m → b m = a m) : Filled e (fun m => b (i + 1 + m)) l := by
  intro m
  show b (i + 1 + m) = _
  rw [hb _ (by omega), show i + 1 + m = i + (m + 1) by omega]
  exact h (m + 1)

end AsyncSqlite
