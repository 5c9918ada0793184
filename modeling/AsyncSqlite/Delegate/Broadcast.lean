import AsyncSqlite.Delegate.Multicast
import Mathlib.Data.List.Forall2
import Mathlib.Data.List.Nodup
import Mathlib.Tactic.Common

/-!
# AsyncSqlite.Delegate.Broadcast — broadcasts that their callbacks change

`MulticastInv` ties a container to its specification: the entries that are not
null are the live registrations, in order. `PassInv` is what carries a loop
over the changes that its callbacks make: of what the pass has invoked, the
registrations that are still live are exactly the entries behind the iterator.
Nulling entries and appending to the list both keep it.
-/

namespace AsyncSqlite

universe u

/-! ## Lists with null entries -/

section NullEntries

variable {α : Type u} {l l' : List (Option α)}

/-- `l'` is `l` with some entries reset. -/
def Nulled (l l' : List (Option α)) : Prop :=
  List.Forall₂ (fun e e' => e' = e ∨ e' = none) l l'

theorem Nulled.sublist (h : Nulled l l') : l'.reduceOption.Sublist l.reduceOption := by
  unfold Nulled at h
  induction h with
  | nil => exact List.Sublist.refl _
  | @cons e e' l l' he _ ih =>
    cases e with
    | none =>
      have he' : e' = none := by simpa using he
      subst he'
      exact ih
    | some a =>
      rcases he with rfl | rfl
      · exact ih.cons_cons a
      · exact ih.cons a

/-- What is left in front of a position is what was there and is left at all. -/
theorem Nulled.take [DecidableEq α] (h : Nulled l l') (hn : l.reduceOption.Nodup) (n : ℕ) :
    (l'.take n).reduceOption =
      (l.take n).reduceOption.filter (fun a => a ∈ l'.reduceOption) := by
  unfold Nulled at h
  induction h generalizing n with
  | nil => simp
  | @cons e e' l l' he hl ih =>
    cases n with
    | zero => rfl
    | succ n =>
      cases e with
      | none =>
        have he' : e' = none := by simpa using he
        subst he'
        exact ih hn n
      | some a =>
        rcases List.nodup_cons.mp hn with ⟨ha, hn'⟩
        -- no two entries are equal, so what is in front of a position is not behind it
        have htake : ∀ x ∈ (l.take n).reduceOption, x ≠ a := by
          rintro x hx rfl
          exact ha (((List.take_sublist n l).filterMap id).subset hx)
        rcases he with rfl | rfl
        · have hrest : (l.take n).reduceOption.filter (fun x => x ∈ a :: l'.reduceOption) =
              (l.take n).reduceOption.filter (fun x => x ∈ l'.reduceOption) := by
            apply List.filter_congr
            intro x hx
            simp [htake x hx]
          simp only [List.take_succ_cons, List.reduceOption_cons_of_some, List.filter_cons,
            List.mem_cons, true_or, decide_true, if_true]
          rw [ih hn' n, ← hrest]
          simp
        · have ha' : a ∉ l'.reduceOption := fun hmem => ha (Nulled.sublist hl |>.subset hmem)
          simp only [List.take_succ_cons, List.reduceOption_cons_of_some,
            List.reduceOption_cons_of_none, List.filter_cons, ha', decide_false,
            Bool.false_eq_true, if_false]
          exact ih hn' n

theorem nulled_map_none (l : List (Option α)) : Nulled l (l.map fun _ => none) := by
  unfold Nulled
  induction l with
  | nil => exact List.Forall₂.nil
  | cons e l ih => exact List.Forall₂.cons (Or.inr rfl) ih

theorem nulled_set (l : List (Option α)) (k : ℕ) : Nulled l (l.set k none) := by
  unfold Nulled
  induction l generalizing k with
  | nil => exact List.Forall₂.nil
  | cons e l ih =>
    cases k with
    | zero => exact List.Forall₂.cons (Or.inr rfl) (List.forall₂_same.mpr fun _ _ => Or.inl rfl)
    | succ k => exact List.Forall₂.cons (Or.inl rfl) (ih k)

theorem reduceOption_map_none (l : List (Option α)) :
    (l.map fun _ => (none : Option α)).reduceOption = [] := by
  induction l with
  | nil => rfl
  | cons e l ih => exact ih

theorem reduceOption_filter_isSome (l : List (Option α)) :
    (l.filter (·.isSome)).reduceOption = l.reduceOption := by
  induction l with
  | nil => rfl
  | cons e l ih =>
    rcases e with _ | a
    · simpa using ih
    · simpa using ih

/-- Resetting, or erasing, the first entry that satisfies `p`. -/
theorem reduceOption_findIdx {p : α → Bool} {k : ℕ}
    (h : l.findIdx? (fun e => e.any p) = some k) :
    (l.set k none).reduceOption = l.reduceOption.eraseP p ∧
      (l.eraseIdx k).reduceOption = l.reduceOption.eraseP p := by
  induction l generalizing k with
  | nil => simp at h
  | cons e l ih =>
    rw [List.findIdx?_cons] at h
    cases e with
    | none =>
      simp only [Option.any_none, Bool.false_eq_true, if_false, Option.map_eq_some_iff] at h
      rcases h with ⟨k', hk', rfl⟩
      exact ih hk'
    | some a =>
      by_cases ha : p a = true
      · have hk : k = 0 := by simpa [ha] using h.symm
        subst hk
        simp [ha]
      · simp only [Option.any_some, ha, Bool.false_eq_true, if_false,
          Option.map_eq_some_iff] at h
        rcases h with ⟨k', hk', rfl⟩
        rcases ih hk' with ⟨hset, herase⟩
        simp [ha, hset, herase]

theorem reduceOption_findIdx_none {p : α → Bool} (h : l.findIdx? (fun e => e.any p) = none) :
    l.reduceOption.eraseP p = l.reduceOption := by
  apply List.eraseP_of_forall_not
  intro a ha
  rw [List.findIdx?_eq_none_iff] at h
  have hmem := List.reduceOption_mem_iff.mp ha
  simpa using h (some a) hmem

end NullEntries

variable {D : Type u} {m m' : MulticastDelegate D} {equal : D → D → Bool}

/-- The entries that the pass is done with: up to the iterator, and the one
whose target is running. -/
def Pass.position (p : Pass D) : ℕ := p.it + p.delegate.toList.length

namespace MulticastDelegate

/-! ## What a step does to one container -/

/-- What a step does to one container of `s`. -/
inductive Move (equal : D → D → Bool) (s : ℕ → MulticastDelegate D) (m : MulticastDelegate D) :
    MulticastDelegate D → Prop
  | keep : Move equal s m m
  | insert (d : D) : Move equal s m ((m.pushBack d).setRegistry (m.registry.insert d))
  | remove (d : D) : Move equal s m ((m.remove equal d).setRegistry (m.registry.remove equal d))
  | clear : Move equal s m (m.clear.setRegistry m.registry.clear)
  | copyAssign (j : ℕ) :
      Move equal s m ((m.copyAssign (s j)).setRegistry (m.registry.assign (s j).registry))
  | moveAssign (j : ℕ) : (s j).passes = [] →
      Move equal s m ((m.moveAssign (s j)).setRegistry (m.registry.assign (s j).registry))
  | movedFrom : m.passes = [] → Move equal s m (m.movedFrom.setRegistry m.registry.clear)
  | broadcast : Move equal s m m.broadcast
  | visit : Move equal s m m.visit
  | callbackReturn : m.inCallback → Move equal s m m.callbackReturn
  | leave : m.passes ≠ [] → Move equal s m m.leave

theorem passes_ne_nil (h : m.inCallback ∨ m.atEnd) : m.passes ≠ [] := by
  intro hnil
  rcases h with ⟨p, hp, -⟩ | ⟨p, hp, -⟩ <;> simp [hnil] at hp

theorem move_of_step {s : ℕ → MulticastDelegate D} {l : MulticastLabel D} (hg : guard l s)
    (i : ℕ) : Move equal s (s i) (update equal l s i) := by
  -- a step writes to one container, and every other one keeps what it is
  have hset : ∀ {k m}, Move equal s (s k) m → Move equal s (s i) (Function.update s k m i) := by
    intro k m hm
    by_cases hik : i = k
    · subst hik
      rwa [Function.update_self]
    · rw [Function.update_of_ne hik]
      exact .keep
  cases l with
  | insert k d => exact hset (.insert d)
  | remove k d => exact hset (.remove d)
  | clear k => exact hset .clear
  | copyAssign k j =>
    by_cases hkj : k = j
    · simp only [update, hkj, if_true]
      exact .keep
    · simp only [update, hkj, if_false]
      exact hset (.copyAssign j)
  | moveAssign k j =>
    by_cases hkj : k = j
    · simp only [update, hkj, if_true]
      exact .keep
    · simp only [update, hkj, if_false]
      have hrest : (s j).passes = [] := hg.2.resolve_right hkj
      -- the container that is moved from is emptied
      by_cases hij : i = j
      · subst hij
        rw [Function.update_self]
        exact .movedFrom hrest
      · rw [Function.update_of_ne hij]
        exact hset (.moveAssign j hrest)
  | broadcast k => exact hset .broadcast
  | visit k => exact hset .visit
  | callbackReturn k => exact hset (.callbackReturn hg)
  | callbackThrow k => exact hset (.leave (passes_ne_nil (Or.inl hg)))
  | finish k => exact hset (.leave (passes_ne_nil (Or.inr hg)))

/-- The pass that is about to read an entry. -/
theorem passes_of_entry {e : Option (Registration D)} (he : m.entry = some e) :
    ∃ p ps, m.passes = p :: ps ∧ p.delegate = none ∧ m.delegates[p.it]? = some e := by
  unfold entry at he
  split at he
  · rename_i p ps hps
    split at he
    · rename_i hnone
      exact ⟨p, ps, hps, Option.isNone_iff_eq_none.mp hnone, he⟩
    · cases he
  · cases he

/-! ## A removed registration does not come back -/

/-- The registration was added to the container and is not live any more. -/
def Gone (x : Registration D) (r : Registry D) : Prop := x.id < r.added ∧ x ∉ r.live

theorem Gone.insert {x : Registration D} {r : Registry D} (h : Gone x r) (d : D) :
    Gone x (r.insert d) := by
  rcases h with ⟨hlt, hmem⟩
  refine ⟨Nat.lt_succ_of_lt hlt, ?_⟩
  simp only [Registry.insert, List.mem_append, List.mem_singleton]
  rintro (hx | rfl)
  · exact hmem hx
  · exact Nat.lt_irrefl _ hlt

theorem Gone.assign {x : Registration D} {r other : Registry D} (h : Gone x r) :
    Gone x (r.assign other) := by
  have hclear : Gone x r.clear := ⟨h.1, List.not_mem_nil⟩
  unfold Registry.assign
  generalize other.live.map (·.delegate) = ds
  generalize r.clear = r' at hclear ⊢
  induction ds generalizing r' with
  | nil => exact hclear
  | cons d ds ih => exact ih _ (hclear.insert d)

theorem registry_leave (m : MulticastDelegate D) : m.leave.registry = m.registry := by
  unfold leave
  dsimp only
  split
  · unfold runCleanup
    split <;> rfl
  · rfl

theorem registry_visit (m : MulticastDelegate D) : m.visit.registry = m.registry := by
  unfold visit
  split <;> rfl

theorem Gone.move {x : Registration D} {s : ℕ → MulticastDelegate D} (h : Gone x m.registry)
    (hm : Move equal s m m') : Gone x m'.registry := by
  cases hm with
  | keep | broadcast | callbackReturn => exact h
  | insert d => exact h.insert d
  | remove d => exact ⟨h.1, fun hx => h.2 (List.eraseP_sublist.subset hx)⟩
  | clear | movedFrom => exact ⟨h.1, List.not_mem_nil⟩
  | copyAssign | moveAssign => exact h.assign
  | visit =>
    rw [registry_visit]
    exact h
  | leave =>
    rw [registry_leave]
    exact h

theorem gone_steps {x : Registration D} {s s' : ℕ → MulticastDelegate D} {i : ℕ}
    (hr : (multicastLts equal).Reachable s) (h : (multicastLts equal).Steps s s')
    (hx : Gone x (s i).registry) : Gone x (s' i).registry :=
  hr.preserves (P := fun s => Gone x (s i).registry)
    (fun _ _ _ hg _ hgone => hgone.move (move_of_step hg i)) h hx

/-! ## The invariant -/

/-- Without null entries a move and a copy add the same entries. -/
theorem moveFrom_eq {other : List (Option (Registration D))} (hnull : none ∉ other) :
    m.moveFrom other = m.copyFrom other := by
  induction other generalizing m with
  | nil => rfl
  | cons e other ih =>
    rcases e with _ | x
    · exact absurd List.mem_cons_self hnull
    · exact ih fun hmem => hnull (List.mem_cons_of_mem _ hmem)

variable [DecidableEq D]

structure PassInv (m : MulticastDelegate D) (p : Pass D) : Prop where
  bound : p.position ≤ m.delegates.length
  seen : p.invoked.filter (fun x => x ∈ m.registry.live) =
    (m.delegates.take p.position).reduceOption
  nodup : p.invoked.Nodup
  known : ∀ x ∈ p.invoked, x.id < m.added

structure MulticastInv (m : MulticastDelegate D) : Prop where
  entries : m.delegates.reduceOption = m.registry.live
  numbered : m.registry.added = m.added
  ordered : (m.registry.live.map (·.id)).Pairwise (· < ·)
  known : ∀ x ∈ m.registry.live, x.id < m.added
  count : m.broadcastCount = m.passes.length
  clean : m.cleanup = false → none ∉ m.delegates
  rest : m.passes = [] → m.cleanup = false
  pass : ∀ p ∈ m.passes, m.PassInv p

theorem MulticastInv.initial : MulticastInv (initial : MulticastDelegate D) where
  entries := rfl
  numbered := rfl
  ordered := List.Pairwise.nil
  known := by simp [MulticastDelegate.initial, Registry.empty]
  count := rfl
  clean := by simp [MulticastDelegate.initial]
  rest := fun _ => rfl
  pass := by simp [MulticastDelegate.initial]

theorem MulticastInv.nodup (h : MulticastInv m) : m.registry.live.Nodup := by
  have hids : (m.registry.live.map (·.id)).Nodup := h.ordered.imp fun hlt => Nat.ne_of_lt hlt
  exact List.Nodup.of_map _ hids

/-- Between broadcasts there is no null entry. -/
theorem MulticastInv.no_null (h : MulticastInv m) (hrest : m.passes = []) :
    none ∉ m.delegates :=
  h.clean (h.rest hrest)

theorem MulticastInv.delegates_eq (h : MulticastInv m) (hrest : m.passes = []) :
    m.delegates = m.registry.live.map some := by
  rw [← h.entries]
  have hnull := h.no_null hrest
  generalize m.delegates = l at hnull
  induction l with
  | nil => rfl
  | cons e l ih =>
    rcases e with _ | x
    · exact absurd List.mem_cons_self hnull
    · rw [List.reduceOption_cons_of_some, List.map_cons,
        ← ih fun hmem => hnull (List.mem_cons_of_mem _ hmem)]

theorem MulticastInv.busy (h : MulticastInv m) : 0 < m.broadcastCount ↔ m.passes ≠ [] := by
  rw [h.count, List.length_pos_iff]

/-! ## The operations -/

/-- What a pass has seen after entries were reset. -/
theorem PassInv.null {p : Pass D} (hp : m.PassInv p) (hlive : m.delegates.reduceOption.Nodup)
    (hentries : m.delegates.reduceOption = m.registry.live)
    (hnull : Nulled m.delegates m'.delegates)
    (hentries' : m'.delegates.reduceOption = m'.registry.live) (hadded : m'.added = m.added) :
    m'.PassInv p where
  bound := by
    rw [← hnull.length_eq]
    exact hp.bound
  seen := by
    have hsub : ∀ x, x ∈ m'.registry.live → x ∈ m.registry.live := by
      intro x hx
      rw [← hentries'] at hx
      rw [← hentries]
      exact hnull.sublist.subset hx
    rw [hnull.take hlive, ← hp.seen, List.filter_filter, hentries']
    apply List.filter_congr
    intro x _
    by_cases hx : x ∈ m'.registry.live
    · simp [hx, hsub x hx]
    · simp [hx]
  nodup := hp.nodup
  known := by
    rw [hadded]
    exact hp.known

/-- What a pass has seen after an entry was appended. -/
theorem PassInv.insert {p : Pass D} (hp : m.PassInv p) (d : D)
    (hnum : m.registry.added = m.added) :
    ((m.pushBack d).setRegistry (m.registry.insert d)).PassInv p where
  bound := by
    have := hp.bound
    simp only [setRegistry, pushBack, List.length_append]
    omega
  seen := by
    have htake : (m.delegates ++ [some (⟨m.added, d⟩ : Registration D)]).take p.position =
        m.delegates.take p.position := List.take_append_of_le_length hp.bound
    simp only [setRegistry, pushBack]
    rw [htake, ← hp.seen]
    apply List.filter_congr
    intro x hx
    have hlt := hp.known x hx
    have hne : x ≠ ⟨m.registry.added, d⟩ := by
      rintro rfl
      simp only at hlt
      omega
    simp [Registry.insert, hne]
  nodup := hp.nodup
  known := by
    intro x hx
    have := hp.known x hx
    simp only [setRegistry, pushBack]
    omega

theorem MulticastInv.insert (h : MulticastInv m) (d : D) :
    MulticastInv ((m.pushBack d).setRegistry (m.registry.insert d)) where
  entries := by
    simp [setRegistry, pushBack, Registry.insert, List.reduceOption_append, h.entries, h.numbered]
  numbered := by simp [setRegistry, pushBack, Registry.insert, h.numbered]
  ordered := by
    simp only [setRegistry, Registry.insert, List.map_append, List.pairwise_append]
    refine ⟨h.ordered, by simp, ?_⟩
    simp only [List.mem_map, List.map_cons, List.map_nil, List.mem_singleton]
    rintro a ⟨x, hx, rfl⟩ b rfl
    have := h.known x hx
    have := h.numbered
    omega
  known := by
    have hnum := h.numbered
    intro x hx
    simp only [setRegistry, Registry.insert, List.mem_append, List.mem_singleton] at hx
    simp only [setRegistry, pushBack]
    rcases hx with hx | rfl
    · have := h.known x hx
      omega
    · simp only
      omega
  count := h.count
  clean := by
    intro hc
    have := h.clean hc
    simp [setRegistry, pushBack, this]
  rest := h.rest
  pass := fun p hp => (h.pass p hp).insert d h.numbered

/-- An operation that resets entries while a pass is in progress, and erases
entries otherwise. -/
theorem MulticastInv.shrink (h : MulticastInv m) (hadded : m'.added = m.added)
    (hnum : m'.registry.added = m'.added) (hcount : m'.broadcastCount = m.broadcastCount)
    (hpasses : m'.passes = m.passes)
    (hentries : m'.delegates.reduceOption = m'.registry.live)
    (hlive : m'.registry.live.Sublist m.registry.live)
    (hbusy : m.passes ≠ [] → Nulled m.delegates m'.delegates ∧ m'.cleanup = true)
    (hidle : m.passes = [] → none ∉ m'.delegates ∧ m'.cleanup = false) :
    MulticastInv m' where
  entries := hentries
  numbered := hnum
  ordered := h.ordered.sublist (hlive.map _)
  known := by
    intro x hx
    rw [hadded]
    exact h.known x (hlive.subset hx)
  count := by
    rw [hcount, hpasses]
    exact h.count
  clean := by
    intro hc
    by_cases hp : m.passes = []
    · exact (hidle hp).1
    · rw [(hbusy hp).2] at hc
      cases hc
  rest := by
    intro hp
    rw [hpasses] at hp
    exact (hidle hp).2
  pass := by
    intro p hp
    rw [hpasses] at hp
    -- a pass in progress: entries are reset in place, so its position stays valid
    have hne : m.passes ≠ [] := List.ne_nil_of_mem hp
    have hnodup : m.delegates.reduceOption.Nodup := by
      rw [h.entries]
      exact h.nodup
    exact (h.pass p hp).null hnodup h.entries (hbusy hne).1 hentries hadded

theorem MulticastInv.clear (h : MulticastInv m) :
    MulticastInv (m.clear.setRegistry m.registry.clear) := by
  have hbusy := h.busy
  unfold MulticastDelegate.clear
  by_cases hc : 0 < m.broadcastCount
  · rw [if_pos hc]
    refine h.shrink rfl h.numbered rfl rfl (reduceOption_map_none _) (List.nil_sublist _) ?_ ?_
    · intro _
      exact ⟨nulled_map_none _, rfl⟩
    · intro hp
      exact absurd hp (hbusy.mp hc)
  · rw [if_neg hc]
    refine h.shrink rfl h.numbered rfl rfl rfl (List.nil_sublist _) ?_ ?_
    · intro hp
      exact absurd (hbusy.mpr hp) hc
    · intro hp
      exact ⟨by simp [setRegistry], h.rest hp⟩

theorem MulticastInv.remove (h : MulticastInv m) (d : D) :
    MulticastInv ((m.remove equal d).setRegistry (m.registry.remove equal d)) := by
  have hbusy := h.busy
  have hsub : (m.registry.remove equal d).live.Sublist m.registry.live := List.eraseP_sublist
  unfold MulticastDelegate.remove
  split
  · -- nothing is equal: the specification's list does not change either
    rename_i hfind
    have hsame : m.registry.remove equal d = m.registry := by
      have := reduceOption_findIdx_none hfind
      rw [h.entries] at this
      simp [Registry.remove, this]
    rw [hsame]
    exact h
  · rename_i k hfind
    rcases reduceOption_findIdx hfind with ⟨hset, herase⟩
    rw [h.entries] at hset herase
    by_cases hc : 0 < m.broadcastCount
    · rw [if_pos hc]
      refine h.shrink rfl h.numbered rfl rfl hset hsub ?_ ?_
      · intro _
        exact ⟨nulled_set _ _, rfl⟩
      · intro hp
        exact absurd hp (hbusy.mp hc)
    · rw [if_neg hc]
      refine h.shrink rfl h.numbered rfl rfl herase hsub ?_ ?_
      · intro hp
        exact absurd (hbusy.mpr hp) hc
      · intro hp
        refine ⟨fun hmem => h.no_null hp ?_, h.rest hp⟩
        exact List.mem_of_mem_eraseIdx hmem

/-- `CopyFrom` inserts a clone of each delegate that is live in the other
container. -/
theorem MulticastInv.copyFrom {r : Registry D} (other : List (Option (Registration D)))
    (h : MulticastInv (m.setRegistry r)) :
    MulticastInv ((m.copyFrom other).setRegistry
      ((other.reduceOption.map (·.delegate)).foldl Registry.insert r)) := by
  induction other generalizing m r with
  | nil => exact h
  | cons e other ih =>
    rcases e with _ | x
    · exact ih h
    · exact ih (h.insert x.delegate)

theorem MulticastInv.copyAssign {rhs : MulticastDelegate D} (h : MulticastInv m)
    (hrhs : MulticastInv rhs) :
    MulticastInv ((m.copyAssign rhs).setRegistry (m.registry.assign rhs.registry)) := by
  have hcopy := h.clear.copyFrom rhs.delegates
  rw [hrhs.entries] at hcopy
  exact hcopy

/-- The container that a move reads is not being broadcast, so it has no null
entry to hand over. -/
theorem MulticastInv.moveAssign {rhs : MulticastDelegate D} (h : MulticastInv m)
    (hrhs : MulticastInv rhs) (hrest : rhs.passes = []) :
    MulticastInv ((m.moveAssign rhs).setRegistry (m.registry.assign rhs.registry)) := by
  have hcopy := h.copyAssign hrhs
  unfold MulticastDelegate.moveAssign
  rw [moveFrom_eq (hrhs.no_null hrest)]
  exact hcopy

theorem MulticastInv.movedFrom (h : MulticastInv m) (hrest : m.passes = []) :
    MulticastInv (m.movedFrom.setRegistry m.registry.clear) := by
  refine h.shrink rfl h.numbered rfl rfl rfl (List.nil_sublist _) ?_ ?_
  · intro hp
    exact absurd hrest hp
  · intro _
    exact ⟨by simp [setRegistry, MulticastDelegate.movedFrom], h.rest hrest⟩

/-! ## The loop -/

theorem MulticastInv.broadcast (h : MulticastInv m) : MulticastInv m.broadcast where
  entries := h.entries
  numbered := h.numbered
  ordered := h.ordered
  known := h.known
  count := by simp [MulticastDelegate.broadcast, h.count]
  clean := h.clean
  rest := by simp [MulticastDelegate.broadcast]
  pass := by
    intro p hp
    rcases List.mem_cons.mp hp with rfl | hp
    · constructor <;> simp [Pass.position]
    · rcases h.pass p hp with ⟨hbound, hseen, hnodup, hknown⟩
      exact ⟨hbound, hseen, hnodup, hknown⟩

/-- The innermost pass moves on. -/
theorem MulticastInv.setPass (h : MulticastInv m) {p : Pass D} {ps : List (Pass D)}
    (hps : m.passes = p :: ps) {f : Pass D → Pass D} (hf : m.PassInv (f p)) :
    MulticastInv (m.setPass f) where
  entries := h.entries
  numbered := h.numbered
  ordered := h.ordered
  known := h.known
  count := by simp [MulticastDelegate.setPass, h.count]
  clean := h.clean
  rest := by simp [MulticastDelegate.setPass, hps]
  pass := by
    intro q hq
    have hq' : m.PassInv q := by
      simp only [MulticastDelegate.setPass, hps, List.modifyHead_cons, List.mem_cons] at hq
      rcases hq with rfl | hq
      · exact hf
      · exact h.pass q (hps ▸ List.mem_cons_of_mem p hq)
    exact ⟨hq'.bound, hq'.seen, hq'.nodup, hq'.known⟩

/-- The registration that a pass is about to invoke is live. -/
theorem MulticastInv.live_of_entry (h : MulticastInv m) {x : Registration D}
    (he : m.entry = some (some x)) : x ∈ m.registry.live := by
  rcases passes_of_entry he with ⟨p, ps, -, -, hget⟩
  rw [← h.entries]
  exact List.reduceOption_mem_iff.mpr (List.mem_of_getElem? hget)

/-- An entry is not behind and at the iterator at once. -/
theorem MulticastInv.not_seen (h : MulticastInv m) {x : Registration D} {k : ℕ}
    (hget : m.delegates[k]? = some (some x)) : x ∉ (m.delegates.take k).reduceOption := by
  have hnodup := h.nodup
  rw [← h.entries, ← List.take_append_drop k m.delegates, List.reduceOption_append,
    List.nodup_append] at hnodup
  have hdrop : x ∈ (m.delegates.drop k).reduceOption := by
    rw [List.reduceOption_mem_iff]
    refine List.mem_of_getElem? (i := 0) ?_
    rw [List.getElem?_drop]
    exact hget
  intro hmem
  exact hnodup.2.2 x hmem x hdrop rfl

theorem MulticastInv.visit (h : MulticastInv m) : MulticastInv m.visit := by
  unfold MulticastDelegate.visit
  split
  · -- the target of a live registration is called
    rename_i x he
    have hlive := h.live_of_entry he
    rcases passes_of_entry he with ⟨p, ps, hps, hnone, hget⟩
    have hp := h.pass p (hps ▸ List.mem_cons_self)
    have hpos : p.position = p.it := by simp [Pass.position, hnone]
    have hlt : p.it < m.delegates.length := by
      by_contra hge
      rw [List.getElem?_eq_none (by omega)] at hget
      cases hget
    have htake : m.delegates.take (p.it + 1) = m.delegates.take p.it ++ [some x] := by
      rw [List.take_add_one, hget]
      rfl
    have hnew : x ∉ p.invoked := by
      intro hmem
      have hseen : x ∈ p.invoked.filter (fun y => y ∈ m.registry.live) := by
        simp [hmem, hlive]
      rw [hp.seen, hpos] at hseen
      exact h.not_seen hget hseen
    refine h.setPass hps ⟨?_, ?_, ?_, ?_⟩
    · simp only [Pass.position, Option.toList_some, List.length_singleton]
      omega
    · have hseen := hp.seen
      rw [hpos] at hseen
      simp only [Pass.position, Option.toList_some, List.length_singleton, List.filter_append,
        hseen, htake, List.reduceOption_append]
      simp [hlive]
    · rw [List.nodup_append]
      refine ⟨hp.nodup, by simp, ?_⟩
      intro a ha b hb hab
      rw [List.mem_singleton] at hb
      subst hb
      subst hab
      exact hnew ha
    · intro y hy
      rcases List.mem_append.mp hy with hy | hy
      · exact hp.known y hy
      · rw [List.mem_singleton.mp hy]
        exact h.known x hlive
  · -- a null entry is skipped
    rename_i he
    rcases passes_of_entry he with ⟨p, ps, hps, hnone, hget⟩
    have hp := h.pass p (hps ▸ List.mem_cons_self)
    have hpos : p.position = p.it := by simp [Pass.position, hnone]
    have hlt : p.it < m.delegates.length := by
      by_contra hge
      rw [List.getElem?_eq_none (by omega)] at hget
      cases hget
    have htake : m.delegates.take (p.it + 1) = m.delegates.take p.it ++ [none] := by
      rw [List.take_add_one, hget]
      rfl
    have hseen := hp.seen
    rw [hpos] at hseen
    refine h.setPass hps ⟨?_, ?_, hp.nodup, hp.known⟩
    · simp only [Pass.position, hnone, Option.toList_none, List.length_nil]
      omega
    · simp only [Pass.position, hnone, Option.toList_none, List.length_nil, Nat.add_zero,
        hseen, htake, List.reduceOption_append]
      simp
  · exact h

theorem MulticastInv.callbackReturn (h : MulticastInv m) (hc : m.inCallback) :
    MulticastInv m.callbackReturn := by
  rcases hc with ⟨p, hhead, hsome⟩
  rcases List.head?_eq_some_iff.mp hhead with ⟨ps, hps⟩
  rcases Option.isSome_iff_exists.mp hsome with ⟨x, hx⟩
  have hp := h.pass p (hps ▸ List.mem_cons_self)
  refine h.setPass hps ⟨?_, ?_, hp.nodup, hp.known⟩
  · have := hp.bound
    simpa [Pass.position, hx] using this
  · have := hp.seen
    simpa [Pass.position, hx] using this

theorem MulticastInv.leave (h : MulticastInv m) (hpasses : m.passes ≠ []) :
    MulticastInv m.leave := by
  rcases List.exists_cons_of_ne_nil hpasses with ⟨p, ps, hps⟩
  have hcount := h.count
  rw [hps, List.length_cons] at hcount
  have hpass : ∀ q ∈ ps, m.PassInv q := fun q hq => h.pass q (hps ▸ List.mem_cons_of_mem p hq)
  unfold MulticastDelegate.leave
  dsimp only
  by_cases hz : m.broadcastCount - 1 = 0
  · -- the outermost pass: every null entry goes
    have hnil : ps = [] := by
      rw [hcount] at hz
      exact List.length_eq_zero_iff.mp (by omega)
    subst hnil
    rw [if_pos hz]
    unfold runCleanup
    split
    · refine ⟨?_, h.numbered, h.ordered, h.known, by simp [hps, hz], ?_, ?_, by simp [hps]⟩
      · have hfilter : (m.delegates.filter (·.isSome)).reduceOption = m.delegates.reduceOption :=
          reduceOption_filter_isSome _
        exact hfilter.trans h.entries
      · simp
      · simp
    · rename_i hclean
      have hclean : m.cleanup = false := by simpa using hclean
      exact ⟨h.entries, h.numbered, h.ordered, h.known, by simp [hps, hz],
        fun _ => h.clean hclean, fun _ => hclean, by simp [hps]⟩
  · rw [if_neg hz]
    have hne : ps ≠ [] := by
      rintro rfl
      rw [List.length_nil] at hcount
      omega
    refine ⟨h.entries, h.numbered, h.ordered, h.known, ?_, h.clean, ?_, ?_⟩
    · simp only [hps, List.tail_cons]
      omega
    · intro hp
      simp only [hps, List.tail_cons] at hp
      exact absurd hp hne
    · intro q hq
      simp only [hps, List.tail_cons] at hq
      have hq' := hpass q hq
      exact ⟨hq'.bound, hq'.seen, hq'.nodup, hq'.known⟩

/-! ## All runs -/

theorem MulticastInv.move {s : ℕ → MulticastDelegate D} (hs : ∀ j, MulticastInv (s j))
    (h : MulticastInv m) (hm : Move equal s m m') : MulticastInv m' := by
  cases hm with
  | keep => exact h
  | insert d => exact h.insert d
  | remove d => exact h.remove d
  | clear => exact h.clear
  | copyAssign j => exact h.copyAssign (hs j)
  | moveAssign j hrest => exact h.moveAssign (hs j) hrest
  | movedFrom hrest => exact h.movedFrom hrest
  | broadcast => exact h.broadcast
  | visit => exact h.visit
  | callbackReturn hc => exact h.callbackReturn hc
  | leave hp => exact h.leave hp

theorem multicast_of_reachable {ok : MulticastLabel D → (ℕ → MulticastDelegate D) → Prop}
    {s : ℕ → MulticastDelegate D} (h : (multicastLts equal).ReachableWhen ok s) :
    ∀ i, MulticastInv (s i) := by
  refine h.induct (P := fun s => ∀ i, MulticastInv (s i)) ?_ ?_
  · intro s hs i
    rw [hs i]
    exact .initial
  · intro l s _ hg _ ih i
    exact (ih i).move ih (move_of_step hg i)

/-- **Reentrant broadcast.** In every reachable state of any number of
containers, whose callbacks may do anything to them:

* a pass that has come to its end has invoked every registration that was live
  when it began and still is exactly once, in registration order, and no pass
  has invoked a registration twice;
* what a pass invokes is live at that moment, so a registration that has been
  removed is invoked in no later state;
* when no broadcast is in progress, the list holds the live registrations in
  order and no null entry, and `Size` and `Empty` count them. -/
theorem reentrant_broadcast {s : ℕ → MulticastDelegate D}
    (h : (multicastLts equal).Reachable s) (i : ℕ) :
    ((s i).registry.live.map (·.id)).Pairwise (· < ·) ∧
    (∀ p ∈ (s i).passes.head?, p.delegate.isNone = true ∧ p.it = (s i).delegates.length →
      p.invoked.filter (fun x => x ∈ p.started ∧ x ∈ (s i).registry.live) =
        (s i).registry.live.filter (fun x => x ∈ p.started)) ∧
    (∀ p ∈ (s i).passes, p.invoked.Nodup) ∧
    (∀ x, (s i).entry = some (some x) → x ∈ (s i).registry.live) ∧
    (∀ x, x.id < (s i).registry.added → x ∉ (s i).registry.live →
      ∀ s', (multicastLts equal).Steps s s' → (s' i).entry ≠ some (some x)) ∧
    ((s i).passes = [] →
      (s i).delegates = (s i).registry.live.map some ∧
      (s i).size = (s i).registry.live.length ∧
      ((s i).isEmpty = true ↔ (s i).registry.live = [])) := by
  have hinv := multicast_of_reachable h i
  refine ⟨hinv.ordered, ?_, fun p hp => (hinv.pass p hp).nodup, fun x => hinv.live_of_entry,
    ?_, ?_⟩
  · rintro p hhead ⟨hnone, hend⟩
    have hseen := (hinv.pass p (List.mem_of_mem_head? hhead)).seen
    have hpos : p.position = (s i).delegates.length := by
      rw [← hend]
      simp [Pass.position, Option.isNone_iff_eq_none.mp hnone]
    -- the iterator has passed every entry
    rw [hpos, List.take_length, hinv.entries] at hseen
    rw [← hseen, List.filter_filter]
    apply List.filter_congr
    intro x _
    rw [hseen]
    by_cases hx : x ∈ (s i).registry.live <;> simp [hx]
  · intro x hadded hgone s' hsteps hentry
    have hlive := (multicast_of_reachable (h.steps hsteps) i).live_of_entry hentry
    exact (gone_steps h hsteps ⟨hadded, hgone⟩).2 hlive
  · intro hrest
    have heq := hinv.delegates_eq hrest
    refine ⟨heq, ?_, ?_⟩
    · simp [size, heq]
    · simp [isEmpty, heq]

/-- The first of three callbacks removes the second delegate and adds a
fourth; the pass goes on to its end. -/
def reentrantRun : List (MulticastLabel ℕ) :=
  [.insert 0 7, .insert 0 8, .insert 0 9, .broadcast 0, .visit 0, .remove 0 8, .insert 0 10,
    .callbackReturn 0, .visit 0, .visit 0, .callbackReturn 0, .visit 0, .callbackReturn 0]

theorem reentrant_broadcast_run :
    ∃ s, (multicastLts fun a b : ℕ => a == b).Reachable s ∧ ∃ p ∈ (s 0).passes.head?,
      p.invoked = [⟨0, 7⟩, ⟨2, 9⟩, ⟨3, 10⟩] ∧
      p.invoked.filter (fun x => x ∈ p.started ∧ x ∈ (s 0).registry.live) =
        (s 0).registry.live.filter (fun x => x ∈ p.started) := by
  obtain ⟨s, hr, hp⟩ := (multicastLts fun a b : ℕ => a == b).execWhen_reachable Lts.always
    (fun _ => rfl) reentrantRun (fun s => (s 0).passes.head?.any fun p =>
      p.invoked = [⟨0, 7⟩, ⟨2, 9⟩, ⟨3, 10⟩] ∧ p.delegate.isNone = true ∧
        p.it = (s 0).delegates.length) (by decide)
  rcases Option.any_eq_true .. |>.mp hp with ⟨p, hhead, hp⟩
  obtain ⟨hinvoked, hend⟩ : _ ∧ _ := of_decide_eq_true hp
  exact ⟨s, hr, p, hhead, hinvoked, (reentrant_broadcast hr 0).2.1 p hhead hend⟩

end MulticastDelegate

end AsyncSqlite
