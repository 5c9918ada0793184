import Mathlib.Tactic.Common

/-!
# AsyncSqlite.Data.Verdicts — a filter held against a law

A filter judges one arrival after the other and keeps a state. A law judges each
arrival by the last one that it let through. A filter whose state tracks that last
one, as long as a condition `P` holds of each arrival, gives the verdicts of the law
(`verdicts_eq`). Where it goes wrong as soon as `P` fails, the condition is exact
(`verdicts_eq_iff`).
-/

namespace AsyncSqlite

universe u v

section

variable {σ : Type u} {α : Type v}

/-- The verdicts over a stream of arrivals. -/
def verdicts (step : σ → α → Bool × σ) : σ → List α → List Bool
  | _, [] => []
  | s, a :: as => (step s a).1 :: verdicts step (step s a).2 as

/-- A law as a filter: it keeps the last arrival that it let through. -/
def judge (law : Option α → α → Bool) (last : Option α) (a : α) : Bool × Option α :=
  (law last a, if law last a then some a else last)

/-- `P` holds of every arrival and of the last one that the law let through before it. -/
def Along (law : Option α → α → Bool) (P : Option α → α → Prop) : Option α → List α → Prop
  | _, [] => True
  | last, a :: as => P last a ∧ Along law P (judge law last a).2 as

instance decidableAlong (law : Option α → α → Bool) (P : Option α → α → Prop)
    [∀ last a, Decidable (P last a)] : ∀ last as, Decidable (Along law P last as)
  | _, [] => isTrue trivial
  | last, a :: as =>
    have := decidableAlong law P (judge law last a).2 as
    inferInstanceAs (Decidable (P last a ∧ Along law P (judge law last a).2 as))

variable {step : σ → α → Bool × σ} {law : Option α → α → Bool} {P Q : Option α → α → Prop}
variable {Tracks : σ → Option α → Prop}

theorem verdicts_eq
    (hstep : ∀ s last a, Tracks s last → P last a →
      (step s a).1 = law last a ∧ Tracks (step s a).2 (judge law last a).2)
    {s : σ} {last : Option α} {as : List α} (ht : Tracks s last) (hP : Along law P last as) :
    verdicts step s as = verdicts (judge law) last as := by
  induction as generalizing s last with
  | nil => rfl
  | cons a as ih =>
    have ⟨hsame, hnext⟩ := hstep s last a ht hP.1
    rw [verdicts, verdicts, hsame, ih hnext hP.2]
    rfl

/-- Where `P` fails of an arrival, its verdict is not that of the law. -/
theorem verdicts_eq_iff
    (hstep : ∀ s last a, Tracks s last → Q last a → P last a →
      (step s a).1 = law last a ∧ Tracks (step s a).2 (judge law last a).2)
    (hwrong : ∀ s last a, Tracks s last → Q last a → ¬ P last a → (step s a).1 ≠ law last a)
    {s : σ} {last : Option α} {as : List α} (ht : Tracks s last) (hQ : Along law Q last as) :
    verdicts step s as = verdicts (judge law) last as ↔ Along law P last as := by
  induction as generalizing s last with
  | nil => exact iff_of_true rfl trivial
  | cons a as ih =>
    rw [verdicts, verdicts, List.cons.injEq]
    show (step s a).1 = law last a ∧ _ ↔ P last a ∧ _
    by_cases hP : P last a
    · have ⟨hsame, hnext⟩ := hstep s last a ht hQ.1 hP
      rw [ih hnext hQ.2]
      exact and_congr (iff_of_true hsame hP) Iff.rfl
    · constructor
      · intro h
        exact absurd h.1 (hwrong s last a ht hQ.1 hP)
      · intro h
        exact absurd h.1 hP

end

/-- In an ordered stream no arrival is before the last one that was let through. -/
theorem Along.of_pairwise {α : Type u} {r : α → α → Prop} {law : Option α → α → Bool}
    {last : Option α} {as : List α} (hlast : ∀ m ∈ last, ∀ a ∈ as, r m a)
    (has : as.Pairwise r) : Along law (fun last a => ∀ m ∈ last, r m a) last as := by
  induction as generalizing last with
  | nil => trivial
  | cons a as ih =>
    rw [List.pairwise_cons] at has
    constructor
    · intro m hm
      exact hlast m hm a List.mem_cons_self
    · apply ih _ has.2
      intro m hm b hb
      dsimp only [judge] at hm
      split at hm
      · cases hm
        exact has.1 b hb
      · exact hlast m hm b (List.mem_cons_of_mem a hb)

end AsyncSqlite
