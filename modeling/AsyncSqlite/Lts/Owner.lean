import Mathlib.Logic.Function.Basic
import Mathlib.Tactic.Common

/-!
# AsyncSqlite.Lts.Owner — who holds a lock

A lock with the name of its holder, beside threads that know by themselves
whether they are in the critical section. `Owned` says that the two agree; it
is kept by threads that move inside or outside of the section
(`Owned.stay`), enter it (`Owned.acquire`) and leave it (`Owned.release`), and
it makes the section exclusive (`Owned.exclusive`).
-/

namespace AsyncSqlite

universe u

variable {α : Type u}

/-- Just the holder is in the critical section. -/
def Owned (inside : α → Bool) (lock : Option α) : Prop :=
  ∀ a, inside a = true ↔ lock = some a

namespace Owned

variable {inside : α → Bool} {lock : Option α} {a b : α}

theorem exclusive (h : Owned inside lock) (ha : inside a = true) (hb : inside b = true) :
    a = b := by
  have heq := ((h a).mp ha).symm.trans ((h b).mp hb)
  exact Option.some.inj heq

theorem outside (h : Owned inside none) (a : α) : inside a = false := by
  cases ha : inside a with
  | false => rfl
  | true => cases (h a).mp ha

variable [DecidableEq α]

theorem stay (h : Owned inside lock) {c : Bool} (hc : c = inside a) :
    Owned (Function.update inside a c) lock := by
  rw [hc, Function.update_eq_self]
  exact h

theorem acquire (h : Owned inside none) : Owned (Function.update inside a true) (some a) := by
  intro b
  by_cases hb : b = a
  · subst hb
    simp
  · rw [Function.update_of_ne hb, h.outside b]
    simp [Ne.symm hb]

theorem release (h : Owned inside lock) (ha : inside a = true) :
    Owned (Function.update inside a false) none := by
  intro b
  by_cases hb : b = a
  · subst hb
    simp
  · rw [Function.update_of_ne hb]
    constructor
    · intro hin
      exact absurd (h.exclusive hin ha) hb
    · intro hnone
      cases hnone

end Owned

end AsyncSqlite
