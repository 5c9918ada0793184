import Mathlib.Control.Basic
import Mathlib.Tactic.Common

/-!
# AsyncSqlite.Data.Attempt — code that throws, over a state that stays

`Attempt σ` is a computation over a state `σ` that may throw: what was done to the
state until then stays done. It has no result at all where the behaviour of the
code is undefined.

`wp m Q E s` says that `m`, from `s`, is defined, and ends with `Q` of its result
and state or throws with `E` of its state. The rules below take `wp` of a
computation to `wp` of its parts.
-/

namespace AsyncSqlite

universe u

/-- A computation that may throw. -/
abbrev Attempt (σ : Type u) : Type u → Type u := OptionT (StateT σ Option)

namespace Attempt

variable {σ α β : Type u}

/-- The end of the computation: its result, unless it throws, and the state. -/
def ends (m : Attempt σ α) (s : σ) : Option (Option α × σ) := (OptionT.run m).run s

/-- An operation that does not throw. -/
def act (f : σ → Option (α × σ)) : Attempt σ α :=
  OptionT.mk fun s => (f s).map fun r => (some r.1, r.2)

/-- An exception. -/
def throws : Attempt σ α := OptionT.mk fun s => some (none, s)

/-- The weakest condition on the state that makes `m` end well. -/
def wp (m : Attempt σ α) (Q : α → σ → Prop) (E : σ → Prop) (s : σ) : Prop :=
  match m.ends s with
  | some (some a, s') => Q a s'
  | some (none, s') => E s'
  | none => False

variable {m : Attempt σ α} {f : α → Attempt σ β} {Q Q' : α → σ → Prop} {R : β → σ → Prop}
  {E E' : σ → Prop} {s : σ}

@[simp]
theorem wp_pure (a : α) : wp (pure a : Attempt σ α) Q E s ↔ Q a s := Iff.rfl

@[simp]
theorem wp_throws : wp (throws : Attempt σ α) Q E s ↔ E s := Iff.rfl

theorem ends_bind : (m >>= f).ends s = (m.ends s).bind fun r =>
    match r.1 with
    | some a => (f a).ends r.2
    | none => some (none, r.2) := by
  unfold ends
  simp only [OptionT.run_bind, StateT.run_bind, Option.bind_eq_bind, Option.elimM]
  cases (OptionT.run m).run s with
  | none => rfl
  | some r =>
    rcases r with ⟨o, s'⟩
    cases o with
    | none => rfl
    | some a => rfl

@[simp]
theorem wp_bind : wp (m >>= f) R E s ↔ wp m (fun a => wp (f a) R E) E s := by
  unfold wp
  rw [ends_bind]
  cases m.ends s with
  | none => rfl
  | some r =>
    rcases r with ⟨o, s'⟩
    cases o with
    | none => rfl
    | some a => rfl

theorem wp_act {g : σ → Option (α × σ)} :
    wp (act g) Q E s ↔ ∃ a s', g s = some (a, s') ∧ Q a s' := by
  unfold wp
  have hends : (act g).ends s = (g s).map fun r => (some r.1, r.2) := rfl
  rw [hends]
  cases hg : g s with
  | none => simp
  | some r =>
    constructor
    · intro h
      exact ⟨r.1, r.2, rfl, h⟩
    · rintro ⟨a, s', heq, h⟩
      cases heq
      exact h

theorem wp_mono (h : wp m Q E s) (hQ : ∀ a s', Q a s' → Q' a s') (hE : ∀ s', E s' → E' s') :
    wp m Q' E' s := by
  unfold wp at h ⊢
  cases hm : m.ends s with
  | none =>
    rw [hm] at h
    exact h
  | some r =>
    rw [hm] at h
    rcases r with ⟨o, s'⟩
    cases o with
    | none => exact hE s' h
    | some a => exact hQ a s' h

/-- What `wp` says about the computation itself. -/
theorem ends_of_wp (h : wp m Q E s) :
    (∃ a s', m.ends s = some (some a, s') ∧ Q a s') ∨
      ∃ s', m.ends s = some (none, s') ∧ E s' := by
  unfold wp at h
  cases hm : m.ends s with
  | none =>
    rw [hm] at h
    exact absurd h id
  | some r =>
    rw [hm] at h
    rcases r with ⟨o, s'⟩
    cases o with
    | none => exact Or.inr ⟨s', rfl, h⟩
    | some a => exact Or.inl ⟨a, s', rfl, h⟩

end Attempt

end AsyncSqlite
