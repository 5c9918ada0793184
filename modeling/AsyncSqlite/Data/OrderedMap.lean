import Mathlib.Data.List.Nodup
import Mathlib.Data.List.Perm.Basic
import Mathlib.Order.Lattice
import Mathlib.Tactic.Common

/-!
# AsyncSqlite.Data.OrderedMap — finite maps that are traversed in key order

A map is the list of its entries in the strict order of their keys, which is
the order in which an iterator visits them. Two maps with the same lookups are
equal (`OrderedMap.ext`), so "the map is what it was before" is an equation.

* `insert` overwrites, as `m[key] = value` does; `erase` removes by key;
  `filter` is a traversal that erases some of the entries it visits.
* `find?_insert` and `find?_erase` describe the operations by
  lookups; `entries_insert` and `entries_erase` as permutations of the entries,
  which is the form in which nothing is lost or counted twice.
-/

namespace AsyncSqlite

universe u v

/-- A finite map, its entries strictly ordered by their keys. -/
structure OrderedMap (κ : Type u) (ν : Type v) [LinearOrder κ] where
  entries : List (κ × ν)
  sorted : entries.Pairwise fun a b => a.1 < b.1

namespace OrderedMap

variable {κ : Type u} {ν : Type v} [LinearOrder κ]

/-! ## Operations -/

def empty : OrderedMap κ ν := ⟨[], List.Pairwise.nil⟩

def size (m : OrderedMap κ ν) : ℕ := m.entries.length

def find? (m : OrderedMap κ ν) (k : κ) : Option ν :=
  (m.entries.find? fun e => e.1 = k).map Prod.snd

/-- Put an entry at its place, over an entry with the same key. -/
def place (k : κ) (v : ν) : List (κ × ν) → List (κ × ν)
  | [] => [(k, v)]
  | e :: es =>
    if k < e.1 then (k, v) :: e :: es
    else if k = e.1 then (k, v) :: es
    else e :: place k v es

theorem mem_place_of {k : κ} {v : ν} {e : κ × ν} {es : List (κ × ν)} (h : e ∈ place k v es) :
    e = (k, v) ∨ e ∈ es := by
  induction es with
  | nil => exact Or.inl (List.mem_singleton.mp h)
  | cons a es ih =>
    unfold place at h
    split_ifs at h <;> grind

theorem sorted_place (k : κ) (v : ν) {es : List (κ × ν)} (h : es.Pairwise fun a b => a.1 < b.1) :
    (place k v es).Pairwise fun a b => a.1 < b.1 := by
  induction es with
  | nil => exact List.pairwise_singleton _ _
  | cons a es ih =>
    obtain ⟨ha, hes⟩ := List.pairwise_cons.mp h
    unfold place
    split_ifs with hlt heq
    · refine List.pairwise_cons.mpr ⟨fun b hb => ?_, h⟩
      rcases List.mem_cons.mp hb with rfl | hb
      · exact hlt
      · exact hlt.trans (ha b hb)
    · exact List.pairwise_cons.mpr ⟨fun b hb => heq ▸ ha b hb, hes⟩
    · refine List.pairwise_cons.mpr ⟨fun b hb => ?_, ih hes⟩
      rcases mem_place_of hb with rfl | hb
      · exact lt_of_le_of_ne (not_lt.mp hlt) (Ne.symm heq)
      · exact ha b hb

def insert (m : OrderedMap κ ν) (k : κ) (v : ν) : OrderedMap κ ν :=
  ⟨place k v m.entries, sorted_place k v m.sorted⟩

/-- Keep the entries that satisfy `p`. -/
def filter (m : OrderedMap κ ν) (p : κ × ν → Bool) : OrderedMap κ ν :=
  ⟨m.entries.filter p, m.sorted.filter p⟩

def erase (m : OrderedMap κ ν) (k : κ) : OrderedMap κ ν := m.filter fun e => e.1 ≠ k

/-! ## Entries and lookups -/

variable {m m' : OrderedMap κ ν} {k j : κ} {v w : ν}

theorem nodup_keys (m : OrderedMap κ ν) : (m.entries.map Prod.fst).Nodup :=
  List.pairwise_map.mpr (m.sorted.imp fun h => ne_of_lt h)

theorem nodup (m : OrderedMap κ ν) : m.entries.Nodup := m.nodup_keys.of_map

/-- A key has at most one entry. -/
theorem entry_unique {a b : κ × ν} (ha : a ∈ m.entries) (hb : b ∈ m.entries) (h : a.1 = b.1) :
    a = b :=
  List.inj_on_of_nodup_map m.nodup_keys ha hb h

theorem mem_entries : (k, v) ∈ m.entries ↔ m.find? k = some v := by
  unfold find?
  constructor
  · intro h
    cases hf : m.entries.find? fun e => e.1 = k with
    | none =>
      have := List.find?_eq_none.mp hf _ h
      simp at this
    | some e =>
      have hk : e.1 = k := by simpa using List.find?_some hf
      rw [entry_unique (List.mem_of_find?_eq_some hf) h hk]
      rfl
  · intro h
    obtain ⟨e, hf, rfl⟩ := Option.map_eq_some_iff.mp h
    have hk : e.1 = k := by simpa using List.find?_some hf
    rw [← hk]
    exact List.mem_of_find?_eq_some hf

theorem find?_eq_none : m.find? k = none ↔ ∀ e ∈ m.entries, e.1 ≠ k := by
  simp [find?]

theorem isSome_find? : (m.find? k).isSome ↔ ∃ e ∈ m.entries, e.1 = k := by
  rw [← not_iff_not, Bool.not_eq_true, Option.isSome_eq_false_iff, Option.isNone_iff_eq_none,
    find?_eq_none]
  push Not
  exact Iff.rfl

theorem entries_injective (h : m.entries = m'.entries) : m = m' := by
  cases m
  cases m'
  cases h
  rfl

/-- Maps with the same lookups are equal. -/
@[ext] theorem ext (h : ∀ k, m.find? k = m'.find? k) : m = m' := by
  have hperm : m.entries.Perm m'.entries := by
    refine (List.perm_ext_iff_of_nodup m.nodup m'.nodup).mpr fun e => ?_
    rw [mem_entries (k := e.1) (v := e.2), mem_entries (k := e.1) (v := e.2), h e.1]
  exact entries_injective (hperm.eq_of_pairwise
    (fun a b _ _ hab hba => absurd hab (lt_asymm hba)) m.sorted m'.sorted)

/-- A traversal that stops at the first entry with `p` stops at the one with
the smallest key. -/
theorem find?_entries_eq_some {p : κ × ν → Bool} {e : κ × ν} :
    m.entries.find? p = some e ↔
      e ∈ m.entries ∧ p e ∧ ∀ a ∈ m.entries, p a → e.1 ≤ a.1 := by
  constructor
  · intro h
    refine ⟨List.mem_of_find?_eq_some h, List.find?_some h, fun a ha hpa => ?_⟩
    obtain ⟨-, front, back, heq, hfront⟩ := List.find?_eq_some_iff_append.mp h
    rw [heq] at ha
    rcases List.mem_append.mp ha with ha | ha
    · exact absurd hpa (by simpa using hfront a ha)
    · rcases List.mem_cons.mp ha with rfl | ha
      · exact le_rfl
      · have hs := m.sorted
        rw [heq] at hs
        exact ((List.pairwise_cons.mp (List.pairwise_append.mp hs).2.1).1 a ha).le
  · rintro ⟨hmem, hp, hmin⟩
    cases hf : m.entries.find? p with
    | none => exact absurd hp (List.find?_eq_none.mp hf e hmem)
    | some a =>
      obtain ⟨-, front, back, heq, hfront⟩ := List.find?_eq_some_iff_append.mp hf
      have ha : a ∈ m.entries := List.mem_of_find?_eq_some hf
      have hle := hmin a ha (List.find?_some hf)
      -- `e` is not in front of `a`, and nothing behind `a` is smaller
      rw [heq] at hmem
      rcases List.mem_append.mp hmem with he | he
      · exact absurd hp (by simpa using hfront e he)
      · rcases List.mem_cons.mp he with rfl | he
        · rfl
        · have hs := m.sorted
          rw [heq] at hs
          have hlt := (List.pairwise_cons.mp (List.pairwise_append.mp hs).2.1).1 e he
          exact absurd hle (not_le.mpr hlt)

theorem mem_place {es : List (κ × ν)} (hs : es.Pairwise fun a b => a.1 < b.1) (e : κ × ν) :
    e ∈ place k v es ↔ e = (k, v) ∨ e ∈ es ∧ e.1 ≠ k := by
  induction es with
  | nil => simp [place]
  | cons a es ih =>
    obtain ⟨ha, hes⟩ := List.pairwise_cons.mp hs
    have hne : ∀ b ∈ es, a.1 ≠ b.1 := fun b hb => ne_of_lt (ha b hb)
    unfold place
    split_ifs with hlt heq
    · -- every entry lies behind `k`
      have hk : ∀ b ∈ a :: es, b.1 ≠ k := by
        intro b hb
        rcases List.mem_cons.mp hb with rfl | hb
        · exact ne_of_gt hlt
        · exact ne_of_gt (hlt.trans (ha b hb))
      rw [List.mem_cons]
      constructor
      · rintro (h | h)
        · exact Or.inl h
        · exact Or.inr ⟨h, hk e h⟩
      · rintro (h | h)
        · exact Or.inl h
        · exact Or.inr h.1
    · subst heq
      rw [List.mem_cons, List.mem_cons]
      constructor
      · rintro (h | h)
        · exact Or.inl h
        · exact Or.inr ⟨Or.inr h, (hne e h).symm⟩
      · rintro (h | ⟨rfl | h, hk⟩)
        · exact Or.inl h
        · exact absurd rfl hk
        · exact Or.inr h
    · rw [List.mem_cons, ih hes, List.mem_cons]
      constructor
      · rintro (rfl | h | ⟨h, hk⟩)
        · exact Or.inr ⟨Or.inl rfl, Ne.symm heq⟩
        · exact Or.inl h
        · exact Or.inr ⟨Or.inr h, hk⟩
      · rintro (h | ⟨rfl | h, hk⟩)
        · exact Or.inr (Or.inl h)
        · exact Or.inl rfl
        · exact Or.inr (Or.inr ⟨h, hk⟩)

theorem mem_insert (e : κ × ν) :
    e ∈ (m.insert k v).entries ↔ e = (k, v) ∨ e ∈ m.entries ∧ e.1 ≠ k :=
  mem_place m.sorted e

theorem mem_filter {p : κ × ν → Bool} {e : κ × ν} :
    e ∈ (m.filter p).entries ↔ e ∈ m.entries ∧ p e :=
  List.mem_filter

theorem mem_erase {e : κ × ν} : e ∈ (m.erase k).entries ↔ e ∈ m.entries ∧ e.1 ≠ k := by
  simp [erase, mem_filter]

theorem find?_insert (m : OrderedMap κ ν) (k j : κ) (v : ν) :
    (m.insert k v).find? j = if j = k then some v else m.find? j := by
  ext w
  rw [← mem_entries, mem_insert]
  by_cases h : j = k
  · simp [h, eq_comm]
  · simp [h, mem_entries]

@[simp] theorem find?_insert_self (m : OrderedMap κ ν) (k : κ) (v : ν) :
    (m.insert k v).find? k = some v := by
  simp [find?_insert]

theorem find?_erase (m : OrderedMap κ ν) (k j : κ) :
    (m.erase k).find? j = if j = k then none else m.find? j := by
  ext w
  rw [← mem_entries, mem_erase, mem_entries]
  by_cases h : j = k <;> simp [h]

@[simp] theorem find?_erase_self (m : OrderedMap κ ν) (k : κ) : (m.erase k).find? k = none := by
  simp [find?_erase]

/-- Erasing an entry that was inserted under a free key restores the map. -/
theorem erase_insert (h : m.find? k = none) : (m.insert k v).erase k = m := by
  ext j : 1
  rw [find?_erase, find?_insert]
  split_ifs with hj
  · rw [hj, h]
  · rfl

/-! ## Conservation -/

/-- Inserting under a free key adds one entry. -/
theorem entries_insert (h : m.find? k = none) :
    (m.insert k v).entries.Perm ((k, v) :: m.entries) := by
  have hfree := find?_eq_none.mp h
  have hnew : (k, v) ∉ m.entries := fun hmem => hfree _ hmem rfl
  refine (List.perm_ext_iff_of_nodup (m.insert k v).nodup
    (List.nodup_cons.mpr ⟨hnew, m.nodup⟩)).mpr fun e => ?_
  rw [mem_insert, List.mem_cons]
  constructor
  · rintro (he | he)
    · exact Or.inl he
    · exact Or.inr he.1
  · rintro (he | he)
    · exact Or.inl he
    · exact Or.inr ⟨he, hfree e he⟩

/-- Erasing an entry takes that entry and no other. -/
theorem entries_erase (h : m.find? k = some v) :
    m.entries.Perm ((k, v) :: (m.erase k).entries) := by
  have hmem : (k, v) ∈ m.entries := mem_entries.mpr h
  have hnew : (k, v) ∉ (m.erase k).entries := fun hin => (mem_erase.mp hin).2 rfl
  refine (List.perm_ext_iff_of_nodup m.nodup
    (List.nodup_cons.mpr ⟨hnew, (m.erase k).nodup⟩)).mpr fun e => ?_
  rw [List.mem_cons, mem_erase]
  constructor
  · intro he
    by_cases hk : e.1 = k
    · exact Or.inl (entry_unique he hmem hk)
    · exact Or.inr ⟨he, hk⟩
  · rintro (rfl | he)
    · exact hmem
    · exact he.1

/-- A traversal that erases the entries in `l` splits the map. -/
theorem entries_split {l : List (κ × ν)} [DecidableEq ν] (h : l.Sublist m.entries) :
    m.entries.Perm (l ++ (m.filter fun e => e ∉ l).entries) := by
  have hl : l.Perm (m.entries.filter fun e => e ∈ l) := by
    refine (List.perm_ext_iff_of_nodup (m.nodup.sublist h) (m.nodup.filter _)).mpr fun e => ?_
    simp only [List.mem_filter, decide_eq_true_eq]
    exact ⟨fun he => ⟨h.subset he, he⟩, fun he => he.2⟩
  have hsplit := List.filter_append_perm (fun e => decide (e ∈ l)) m.entries
  refine hsplit.symm.trans (hl.symm.append ?_)
  simp [filter]

theorem size_insert (h : m.find? k = none) : (m.insert k v).size = m.size + 1 := by
  simpa [size] using (entries_insert (v := v) h).length_eq

theorem size_filter_le (m : OrderedMap κ ν) (p : κ × ν → Bool) : (m.filter p).size ≤ m.size :=
  List.length_filter_le p m.entries

/-- A map whose keys all occur in another one is no larger. -/
theorem size_le_of_keys {μ : Type v} {n : OrderedMap κ μ}
    (h : ∀ k, (m.find? k).isSome → (n.find? k).isSome) : m.size ≤ n.size := by
  have hsub : m.entries.map Prod.fst ⊆ n.entries.map Prod.fst := by
    intro k hk
    obtain ⟨e, he, rfl⟩ := List.mem_map.mp hk
    obtain ⟨e', he', hk'⟩ := isSome_find?.mp (h e.1 (isSome_find?.mpr ⟨e, he, rfl⟩))
    exact List.mem_map.mpr ⟨e', he', hk'⟩
  simpa [size] using (List.subperm_of_subset m.nodup_keys hsub).length_le

end OrderedMap

end AsyncSqlite
