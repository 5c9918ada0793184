import AsyncSqlite.Lts.Core

/-!
# AsyncSqlite.Lts.Run — labelled runs, simulation and refinement

`Run` records the labels of a run, so that two systems can be driven by the
same labels. `Simulation` relates a system to a more abstract one step by step;
`Simulation.run` carries it over to whole runs. `RefinesWhen` is the case of a
refinement mapping: the abstract state is a function of the concrete one, and
steps that the abstract system does not see leave it alone.
-/

namespace AsyncSqlite

universe u v w x

namespace Lts

variable {σ : Type u} {τ : Type v} {ι : Type w}

/-- `M` goes from the first state to the second by these labels, in order. -/
inductive Run (M : Lts σ ι) : σ → List ι → σ → Prop
  | nil {s : σ} : Run M s [] s
  | concat {s s' : σ} {ls : List ι} {l : ι} : Run M s ls s' → M.guard l s' →
      Run M s (ls ++ [l]) (M.update l s')

theorem Run.steps {M : Lts σ ι} {s s' : σ} {ls : List ι} (h : M.Run s ls s') : M.Steps s s' := by
  induction h with
  | nil => exact Relation.ReflTransGen.refl
  | concat _ hg ih => exact ih.trans (StepsWhen.single hg trivial)

theorem Run.reachable {M : Lts σ ι} {s s' : σ} {ls : List ι} (h : M.Run s ls s')
    (hinit : M.init s) : M.Reachable s' :=
  ⟨s, hinit, h.steps⟩

theorem Run.trans {M : Lts σ ι} {s s' s'' : σ} {ls ls' : List ι} (h : M.Run s ls s')
    (h' : M.Run s' ls' s'') : M.Run s (ls ++ ls') s'' := by
  induction h' with
  | nil =>
    rw [List.append_nil]
    exact h
  | concat _ hg ih =>
    rw [← List.append_assoc]
    exact ih.concat hg

/-- Every step of `M` is a step of `N` with the same label, between related
states. -/
structure Simulation (M : Lts σ ι) (N : Lts τ ι) (R : σ → τ → Prop) : Prop where
  init : ∀ s, M.init s → ∃ a, N.init a ∧ R s a
  step : ∀ l s a, R s a → M.guard l s → N.guard l a ∧ R (M.update l s) (N.update l a)

/-- A run of `M` is matched by a run of `N` with the same labels. -/
theorem Simulation.run {M : Lts σ ι} {N : Lts τ ι} {R : σ → τ → Prop} (h : Simulation M N R)
    {s s' : σ} {a : τ} {ls : List ι} (hrun : M.Run s ls s') (hR : R s a) :
    ∃ a', N.Run a ls a' ∧ R s' a' := by
  induction hrun with
  | nil => exact ⟨a, .nil, hR⟩
  | concat _ hg ih =>
    rcases ih with ⟨a', hrun', hR'⟩
    rcases h.step _ _ _ hR' hg with ⟨hg', hR''⟩
    exact ⟨_, .concat hrun' hg', hR''⟩

theorem Simulation.steps {M : Lts σ ι} {N : Lts τ ι} {R : σ → τ → Prop} (h : Simulation M N R)
    {s s' : σ} {a : τ} (hsteps : M.Steps s s') (hR : R s a) : ∃ a', N.Steps a a' ∧ R s' a' := by
  induction hsteps with
  | refl => exact ⟨a, Relation.ReflTransGen.refl, hR⟩
  | tail _ hlast ih =>
    rcases ih with ⟨a', hsteps', hR'⟩
    rcases hlast with ⟨l, hg, -, rfl⟩
    rcases h.step _ _ _ hR' hg with ⟨hg', hR''⟩
    exact ⟨_, hsteps'.trans (StepsWhen.single hg' trivial), hR''⟩

/-- Seen through `f`, every step of `M` that meets the condition is a step of
`N` or a stutter. -/
structure RefinesWhen {κ : Type x} (M : Lts σ ι) (ok : ι → σ → Prop) (f : σ → τ) (N : Lts τ κ) :
    Prop where
  init : ∀ s, M.init s → N.init (f s)
  step : ∀ l s, M.ReachableWhen ok s → M.guard l s → ok l s →
    f (M.update l s) = f s ∨ ∃ k, N.guard k (f s) ∧ f (M.update l s) = N.update k (f s)

theorem RefinesWhen.reachable {κ : Type x} {M : Lts σ ι} {ok : ι → σ → Prop} {f : σ → τ}
    {N : Lts τ κ} (h : M.RefinesWhen ok f N) {s : σ} (hr : M.ReachableWhen ok s) :
    N.Reachable (f s) := by
  refine hr.map h.init fun l s hr hg hok => ?_
  rcases h.step l s hr hg hok with hst | ⟨k, hk, heq⟩
  · exact Or.inl hst
  · exact Or.inr ⟨k, hk, trivial, heq⟩

variable (M : Lts σ ι)

theorem exec_run [∀ l s, Decidable (M.guard l s)] (ls : List ι) :
    ∀ {s₀ s s' : σ} {ks : List ι}, M.Run s₀ ks s → M.execWhen always s ls = some s' →
      M.Run s₀ (ks ++ ls) s' := by
  induction ls with
  | nil =>
    intro s₀ s s' ks hrun h
    simp only [execWhen, Option.some.injEq] at h
    subst h
    rwa [List.append_nil]
  | cons l ls ih =>
    intro s₀ s s' ks hrun h
    simp only [execWhen] at h
    split at h
    · rename_i hg
      have := ih (Run.concat hrun hg.1) h
      rwa [List.append_assoc] at this
    · cases h

/-- A computed run, with its labels. -/
theorem exec_labelled [∀ l s, Decidable (M.guard l s)] (s₀ : σ) (ls : List ι) (p : σ → Bool)
    (h : (M.execWhen always s₀ ls).any p = true) : ∃ s, M.Run s₀ ls s ∧ p s = true := by
  rcases Option.any_eq_true .. |>.mp h with ⟨s, hs, hp⟩
  exact ⟨s, exec_run M ls .nil hs, hp⟩

end Lts

end AsyncSqlite
