import Mathlib.Logic.Relation
import Mathlib.Tactic.Common

/-!
# AsyncSqlite.Lts.Core — guarded transition systems

A system is a set of labels, each with a guard and an update. A run is any
sequence of labels whose guards hold, so a statement about every reachable
state is a statement about every interleaving.

* **Conditional runs**: `StepsWhen ok` keeps the steps that satisfy a side
  condition `ok`. It is how a result says "in every run in which the branch
  that goes wrong is not taken"; `Steps` is the unconditional case.
* **Rules**: `ReachableWhen.induct` (the invariant may use that the state is
  reachable), `StepsWhen.preserves` (what one step keeps, a whole run keeps),
  `ReachableWhen.map` (a projection of the state carries reachability to a
  component system, possibly by stuttering).
* **Execution**: `execWhen` runs a list of labels, `execWhen_reachable` turns a
  run that was computed into a reachable state.
-/

namespace AsyncSqlite

universe u v w x

/-- A guarded transition system with states `σ` and labels `ι`. -/
structure Lts (σ : Type u) (ι : Type v) where
  init : σ → Prop
  guard : ι → σ → Prop
  update : ι → σ → σ

namespace Lts

variable {σ : Type u} {ι : Type v} (M : Lts σ ι)

/-! ## Steps and reachability -/

/-- One step by some label whose guard and side condition hold. -/
def StepWhen (ok : ι → σ → Prop) (s s' : σ) : Prop :=
  ∃ l, M.guard l s ∧ ok l s ∧ s' = M.update l s

/-- Any number of steps that meet the side condition. -/
def StepsWhen (ok : ι → σ → Prop) : σ → σ → Prop :=
  Relation.ReflTransGen (M.StepWhen ok)

/-- States reached from an initial state by steps that meet the condition. -/
def ReachableWhen (ok : ι → σ → Prop) (s : σ) : Prop :=
  ∃ s₀, M.init s₀ ∧ M.StepsWhen ok s₀ s

/-- No side condition. -/
def always (_ : ι) (_ : σ) : Prop := True

abbrev Steps : σ → σ → Prop := M.StepsWhen always

abbrev Reachable (s : σ) : Prop := M.ReachableWhen always s

variable {M}

theorem StepsWhen.single {ok : ι → σ → Prop} {l : ι} {s : σ} (hg : M.guard l s)
    (hok : ok l s) : M.StepsWhen ok s (M.update l s) :=
  Relation.ReflTransGen.single ⟨l, hg, hok, rfl⟩

theorem ReachableWhen.start {ok : ι → σ → Prop} {s : σ} (h : M.init s) :
    M.ReachableWhen ok s :=
  ⟨s, h, Relation.ReflTransGen.refl⟩

theorem ReachableWhen.steps {ok : ι → σ → Prop} {s s' : σ} (h : M.ReachableWhen ok s)
    (hs : M.StepsWhen ok s s') : M.ReachableWhen ok s' := by
  rcases h with ⟨s₀, h₀, hrun⟩
  exact ⟨s₀, h₀, hrun.trans hs⟩

theorem ReachableWhen.next {ok : ι → σ → Prop} {l : ι} {s : σ}
    (h : M.ReachableWhen ok s) (hg : M.guard l s) (hok : ok l s) :
    M.ReachableWhen ok (M.update l s) :=
  h.steps (StepsWhen.single hg hok)

/-- A stronger side condition allows fewer runs. -/
theorem StepsWhen.mono {ok ok' : ι → σ → Prop} (hok : ∀ l s, ok l s → ok' l s) {s s' : σ}
    (h : M.StepsWhen ok s s') : M.StepsWhen ok' s s' := by
  refine Relation.ReflTransGen.mono ?_ s s' h
  rintro a b ⟨l, hg, hl, rfl⟩
  exact ⟨l, hg, hok l a hl, rfl⟩

theorem ReachableWhen.mono {ok ok' : ι → σ → Prop} (hok : ∀ l s, ok l s → ok' l s) {s : σ}
    (h : M.ReachableWhen ok s) : M.ReachableWhen ok' s := by
  rcases h with ⟨s₀, h₀, hrun⟩
  exact ⟨s₀, h₀, hrun.mono hok⟩

theorem ReachableWhen.reachable {ok : ι → σ → Prop} {s : σ} (h : M.ReachableWhen ok s) :
    M.Reachable s :=
  h.mono fun _ _ _ => trivial

/-! ## Invariant rules -/

/-- Invariant induction over conditional runs. The step case may use that
the state before the step is reachable, so invariants proved earlier are
available in it. -/
theorem ReachableWhen.induct {ok : ι → σ → Prop} {P : σ → Prop}
    (hinit : ∀ s, M.init s → P s)
    (hstep : ∀ l s, M.ReachableWhen ok s → M.guard l s → ok l s → P s → P (M.update l s))
    {s : σ} (h : M.ReachableWhen ok s) : P s := by
  rcases h with ⟨s₀, h₀, hrun⟩
  induction hrun with
  | refl => exact hinit s₀ h₀
  | tail hpre hlast ih =>
    rcases hlast with ⟨l, hg, hok, rfl⟩
    exact hstep l _ ⟨s₀, h₀, hpre⟩ hg hok ih

/-- What every step from a reachable state keeps, every run from a reachable
state keeps. -/
theorem ReachableWhen.preserves {ok : ι → σ → Prop} {P : σ → Prop}
    (hstep : ∀ l s, M.ReachableWhen ok s → M.guard l s → ok l s → P s → P (M.update l s))
    {s s' : σ} (h : M.ReachableWhen ok s) (hrun : M.StepsWhen ok s s') (hP : P s) : P s' := by
  induction hrun with
  | refl => exact hP
  | tail hpre hlast ih =>
    rcases hlast with ⟨l, hg, hok, rfl⟩
    exact hstep l _ (h.steps hpre) hg hok ih

/-! ## Projection to a component -/

/-- A system whose every step is, seen through `f`, a step of the component
`N` or a stutter, reaches only states that `f` maps to reachable states of
`N`. -/
theorem ReachableWhen.map {τ : Type w} {κ : Type x} {N : Lts τ κ} {ok : ι → σ → Prop}
    {okN : κ → τ → Prop} {f : σ → τ}
    (hinit : ∀ s, M.init s → N.init (f s))
    (hstep : ∀ l s, M.ReachableWhen ok s → M.guard l s → ok l s →
      f (M.update l s) = f s ∨
        ∃ k, N.guard k (f s) ∧ okN k (f s) ∧ f (M.update l s) = N.update k (f s))
    {s : σ} (h : M.ReachableWhen ok s) : N.ReachableWhen okN (f s) := by
  refine h.induct (P := fun s => N.ReachableWhen okN (f s)) ?_ ?_
  · intro s hs
    exact ReachableWhen.start (hinit s hs)
  · intro l s hr hg hok ih
    rcases hstep l s hr hg hok with hst | ⟨k, hk, hokk, heq⟩
    · rw [hst]
      exact ih
    · rw [heq]
      exact ih.next hk hokk

/-! ## Execution -/

variable (M)

/-- Run a list of labels; `none` at the first one whose guard or side
condition fails. -/
def execWhen (ok : ι → σ → Prop) [∀ l s, Decidable (M.guard l s)] [∀ l s, Decidable (ok l s)] :
    σ → List ι → Option σ
  | s, [] => some s
  | s, l :: ls => if M.guard l s ∧ ok l s then execWhen ok (M.update l s) ls else none

instance (l : ι) (s : σ) : Decidable (always l s) := inferInstanceAs (Decidable True)

variable {M}

theorem execWhen_steps {ok : ι → σ → Prop} [∀ l s, Decidable (M.guard l s)]
    [∀ l s, Decidable (ok l s)] (ls : List ι) :
    ∀ {s s' : σ}, M.execWhen ok s ls = some s' → M.StepsWhen ok s s' := by
  induction ls with
  | nil =>
    intro s s' h
    simp only [execWhen, Option.some.injEq] at h
    subst h
    exact Relation.ReflTransGen.refl
  | cons l ls ih =>
    intro s s' h
    simp only [execWhen] at h
    split at h
    · rename_i hg
      exact (StepsWhen.single hg.1 hg.2).trans (ih h)
    · cases h

variable (M)

/-- A computed run ends in a reachable state: the form in which a concrete
interleaving is exhibited. -/
theorem execWhen_reachable (ok : ι → σ → Prop) [∀ l s, Decidable (M.guard l s)]
    [∀ l s, Decidable (ok l s)] {s₀ : σ} (h₀ : M.init s₀) (ls : List ι) (p : σ → Bool)
    (h : (M.execWhen ok s₀ ls).any p = true) : ∃ s, M.ReachableWhen ok s ∧ p s = true := by
  rcases Option.any_eq_true .. |>.mp h with ⟨s, hs, hp⟩
  exact ⟨s, ⟨s₀, h₀, execWhen_steps ls hs⟩, hp⟩

end Lts

end AsyncSqlite
