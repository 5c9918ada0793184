import Mathlib.Data.List.Basic
import Mathlib.Tactic.Common

/-!
# AsyncSqlite.Data.Log — logs of calls, by position

A system that numbers its calls keeps them in a list: a new call is appended, a
call that goes on is modified in place. `Log.Forall P l` says `P` of every entry
and its position; it has one rule for each of the two changes.
-/

namespace AsyncSqlite

universe u

namespace Log

variable {α : Type u} {l : List α} {P Q : ℕ → α → Prop} {a x : α} {i k : ℕ} {f : α → α}

/-- Every entry satisfies `P` at its position. -/
def Forall (P : ℕ → α → Prop) (l : List α) : Prop := ∀ i a, l[i]? = some a → P i a

theorem Forall.mono (h : Forall P l) (hPQ : ∀ i a, l[i]? = some a → P i a → Q i a) :
    Forall Q l :=
  fun i a hi => hPQ i a hi (h i a hi)

theorem forall_nil : Forall P ([] : List α) := by
  intro i a h
  simp at h

/-- An entry of a log that has grown is an old one or the new one. -/
theorem getElem?_concat_cases (h : (l ++ [x])[i]? = some a) :
    l[i]? = some a ∨ i = l.length ∧ a = x := by
  rw [List.getElem?_append] at h
  split at h
  · exact Or.inl h
  · rename_i hlt
    have hi : i - l.length = 0 := by
      by_contra hne
      have hsome := (List.getElem?_eq_some_iff.mp h).1
      simp only [List.length_singleton] at hsome
      omega
    rw [hi] at h
    simp only [List.getElem?_cons_zero, Option.some.injEq] at h
    exact Or.inr ⟨by omega, h.symm⟩

theorem getElem?_concat_of (h : l[i]? = some a) : (l ++ [x])[i]? = some a := by
  have hi : i < l.length := (List.getElem?_eq_some_iff.mp h).1
  rwa [List.getElem?_append_left hi]

theorem Forall.concat (h : Forall P l) (hx : P l.length x) : Forall P (l ++ [x]) := by
  intro i a hi
  rcases getElem?_concat_cases hi with hi | ⟨rfl, rfl⟩
  · exact h i a hi
  · exact hx

/-- An entry of a log with a modified entry comes from the entry it had there. -/
theorem getElem?_modify_cases (h : (l.modify k f)[i]? = some a) :
    ∃ b, l[i]? = some b ∧ (i = k ∧ a = f b ∨ i ≠ k ∧ a = b) := by
  rw [List.getElem?_modify] at h
  obtain ⟨b, hb, hab⟩ := Option.map_eq_some_iff.mp h
  by_cases hk : k = i
  · exact ⟨b, hb, Or.inl ⟨hk.symm, by simpa [hk] using hab.symm⟩⟩
  · exact ⟨b, hb, Or.inr ⟨fun hi => hk hi.symm, by simpa [hk] using hab.symm⟩⟩

/-- The entry that is modified has to be looked at again. -/
theorem Forall.modify (h : Forall P l) (hk : ∀ a, l[k]? = some a → P k (f a)) :
    Forall P (l.modify k f) := by
  intro i a hi
  obtain ⟨b, hb, ⟨rfl, rfl⟩ | ⟨-, rfl⟩⟩ := getElem?_modify_cases hi
  · exact hk b hb
  · exact h i a hb

end Log

end AsyncSqlite
