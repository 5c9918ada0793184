import Mathlib.Data.List.Nodup
import Mathlib.Logic.Function.Basic
import Mathlib.Tactic.Common

/-!
# AsyncSqlite.Heap.IntrusiveList — singly linked lists through the nodes

A list is a head pointer and a next pointer in every node. `Path p l` says that
the pointer `p` leads through exactly the nodes `l` to null, so the list is
acyclic and its nodes are distinct (`Path.nodup`).

The loops over such a list are written as they are in a program: a pointer, or
a pointer to the cell that holds it, moves along until it is null. They take
fuel and answer `none` when it runs out; each has one lemma that gives the fuel
it needs and the list that it leaves.
-/

namespace AsyncSqlite

universe u

variable {α : Type u}

structure Links (α : Type u) where
  head : Option α
  next : α → Option α

/-- A place where a pointer of the list is kept. -/
inductive Cell (α : Type u) where
  | head
  | next (a : α)
deriving DecidableEq

namespace Links

/-- From `p` through exactly these nodes to null. -/
def Path (L : Links α) : Option α → List α → Prop
  | p, [] => p = none
  | p, a :: l => p = some a ∧ L.Path (L.next a) l

/-- The list holds these nodes, in this order. -/
def Holds (L : Links α) (l : List α) : Prop := L.Path L.head l

variable {L L' : Links α} {p : Option α} {l : List α}

/-! ## Paths -/

theorem Path.unique {l' : List α} (h : L.Path p l) (h' : L.Path p l') : l = l' := by
  induction l generalizing p l' with
  | nil =>
    cases l' with
    | nil => rfl
    | cons b l' =>
      unfold Path at h h'
      rw [h] at h'
      exact absurd h'.1 (by simp)
  | cons a l ih =>
    cases l' with
    | nil =>
      unfold Path at h h'
      rw [h'] at h
      exact absurd h.1 (by simp)
    | cons b l' =>
      rcases h with ⟨rfl, h⟩
      rcases h' with ⟨hab, h'⟩
      have hab : a = b := Option.some.inj hab
      subst hab
      rw [ih h h']

theorem Path.suffix {l₁ l₂ : List α} {a : α} (h : L.Path p (l₁ ++ a :: l₂)) :
    L.Path (L.next a) l₂ := by
  induction l₁ generalizing p with
  | nil => exact h.2
  | cons b l₁ ih => exact ih h.2

/-- A node that came twice would lead back to itself. -/
theorem Path.nodup (h : L.Path p l) : l.Nodup := by
  induction l generalizing p with
  | nil => exact List.nodup_nil
  | cons a l ih =>
    rw [List.nodup_cons]
    refine ⟨fun ha => ?_, ih h.2⟩
    rcases List.append_of_mem ha with ⟨l₁, l₂, rfl⟩
    have hlen := congrArg List.length ((Path.suffix h.2).unique h.2)
    simp only [List.length_append, List.length_cons] at hlen
    omega

/-- Only the next pointers of the nodes matter. -/
theorem Path.congr (h : L.Path p l) (hnext : ∀ a ∈ l, L'.next a = L.next a) : L'.Path p l := by
  induction l generalizing p with
  | nil => exact h
  | cons a l ih =>
    refine ⟨h.1, ?_⟩
    rw [hnext a List.mem_cons_self]
    exact ih h.2 fun b hb => hnext b (List.mem_cons_of_mem a hb)

/-! ## Walking and searching -/

/-- The nodes that a walk from `p` to null visits. -/
def walk (L : Links α) : ℕ → Option α → Option (List α)
  | 0, _ => none
  | _ + 1, none => some []
  | fuel + 1, some a => (walk L fuel (L.next a)).map (a :: ·)

theorem Path.walk (h : L.Path p l) {fuel : ℕ} (hfuel : l.length < fuel) :
    L.walk fuel p = some l := by
  induction l generalizing p fuel with
  | nil =>
    unfold Path at h
    subst h
    rcases fuel with _ | fuel
    · exact absurd hfuel (Nat.not_lt_zero _)
    · rfl
  | cons a l ih =>
    rcases h with ⟨rfl, h⟩
    rcases fuel with _ | fuel
    · exact absurd hfuel (Nat.not_lt_zero _)
    · simp only [List.length_cons] at hfuel
      simp [Links.walk, ih h (Nat.lt_of_succ_lt_succ hfuel)]

variable [DecidableEq α]

/-- Search from `p` for the node `x`. -/
def find (L : Links α) (x : α) : ℕ → Option α → Option Bool
  | 0, _ => none
  | _ + 1, none => some false
  | fuel + 1, some a => if a = x then some true else find L x fuel (L.next a)

theorem Path.find (h : L.Path p l) (x : α) {fuel : ℕ} (hfuel : l.length < fuel) :
    L.find x fuel p = some (decide (x ∈ l)) := by
  induction l generalizing p fuel with
  | nil =>
    unfold Path at h
    subst h
    rcases fuel with _ | fuel
    · exact absurd hfuel (Nat.not_lt_zero _)
    · simp [Links.find]
  | cons a l ih =>
    rcases h with ⟨rfl, h⟩
    rcases fuel with _ | fuel
    · exact absurd hfuel (Nat.not_lt_zero _)
    · simp only [List.length_cons] at hfuel
      unfold Links.find
      by_cases hax : a = x
      · simp [hax]
      · have hxa : ¬ x = a := fun hxa => hax hxa.symm
        simp [hax, hxa, ih h (Nat.lt_of_succ_lt_succ hfuel)]

/-! ## Cells -/

def read (L : Links α) : Cell α → Option α
  | .head => L.head
  | .next a => L.next a

def write (L : Links α) : Cell α → Option α → Links α
  | .head, p => { L with head := p }
  | .next a, p => { L with next := Function.update L.next a p }

theorem read_write_self (L : Links α) (c : Cell α) (p : Option α) : (L.write c p).read c = p := by
  cases c with
  | head => rfl
  | next a => simp [write, read]

theorem read_write_of_ne (L : Links α) {c c' : Cell α} (hc : c' ≠ c) (p : Option α) :
    (L.write c p).read c' = L.read c' := by
  cases c with
  | head =>
    cases c' with
    | head => exact absurd rfl hc
    | next b => rfl
  | next a =>
    cases c' with
    | head => rfl
    | next b =>
      have hba : b ≠ a := by
        rintro rfl
        exact hc rfl
      simp [write, read, Function.update_of_ne hba]

/-- `c` holds the pointer to a list of nodes that `c` itself is not part of. -/
structure At (L : Links α) (c : Cell α) (l : List α) : Prop where
  path : L.Path (L.read c) l
  outside : ∀ a ∈ l, c ≠ .next a

omit [DecidableEq α] in
theorem Holds.at_head (h : L.Holds l) : L.At .head l := ⟨h, by simp⟩

omit [DecidableEq α] in
/-- One node further. -/
theorem At.tail {c : Cell α} {a : α} (h : L.At c (a :: l)) : L.At (.next a) l := by
  have hnodup := h.path.nodup
  refine ⟨h.path.2, ?_⟩
  intro b hb hab
  have hab : a = b := by injection hab
  subst hab
  exact (List.nodup_cons.mp hnodup).1 hb

omit [DecidableEq α] in
/-- The edit of a cell moves it past its first node, whose own pointer is
reset. -/
theorem At.skip {c : Cell α} {a : α} (h : L.At c (a :: l)) {L' : Links α}
    (hc : L'.read c = L.next a)
    (hother : ∀ c', c' ≠ c → c' ≠ .next a → L'.read c' = L.read c') : L'.At c l := by
  have htail := h.tail
  refine ⟨?_, fun b hb => h.outside b (List.mem_cons_of_mem a hb)⟩
  rw [hc]
  refine htail.path.congr fun b hb => ?_
  exact hother (.next b) (h.outside b (List.mem_cons_of_mem a hb)).symm (htail.outside b hb).symm

/-! ## Removing nodes -/

/-- `*pp = x->next; x->next = nullptr` at the first cell `pp` that holds `x`. -/
def unlink (x : α) : ℕ → Cell α → Links α → Option (Links α)
  | 0, _, _ => none
  | fuel + 1, pp, L =>
    match L.read pp with
    | none => some L
    | some a =>
      if a = x then some ((L.write pp (L.next x)).write (.next x) none)
      else unlink x fuel (.next a) L

/-- Every node that does not stay is taken out: its next pointer is read and
reset, and the cell that pointed to it is redirected. -/
def purge (stays : α → Bool) : ℕ → Cell α → Links α → Option (Links α)
  | 0, _, _ => none
  | fuel + 1, pp, L =>
    match L.read pp with
    | none => some L
    | some a =>
      if stays a then purge stays fuel (.next a) L
      else purge stays fuel pp ((L.write (.next a) none).write pp (L.next a))

theorem At.unlink {c : Cell α} (h : L.At c l) (x : α) {fuel : ℕ} (hfuel : l.length < fuel) :
    ∃ L', Links.unlink x fuel c L = some L' ∧ L'.At c (l.erase x) ∧
      ∀ c', c' ≠ c → (∀ a ∈ l, c' ≠ .next a) → L'.read c' = L.read c' := by
  induction l generalizing c fuel with
  | nil =>
    rcases fuel with _ | fuel
    · exact absurd hfuel (Nat.not_lt_zero _)
    · have hnone : L.read c = none := h.path
      exact ⟨L, by simp [Links.unlink, hnone], h, fun _ _ _ => rfl⟩
  | cons a l ih =>
    rcases fuel with _ | fuel
    · exact absurd hfuel (Nat.not_lt_zero _)
    simp only [List.length_cons] at hfuel
    have hsome : L.read c = some a := h.path.1
    unfold Links.unlink
    simp only [hsome]
    by_cases hax : a = x
    · subst hax
      have hca : c ≠ .next a := h.outside a List.mem_cons_self
      refine ⟨_, by rw [if_pos rfl], ?_, ?_⟩
      · rw [List.erase_cons_head]
        refine h.skip ?_ ?_
        · rw [read_write_of_ne _ hca, read_write_self]
        · intro c' hc' hca'
          rw [read_write_of_ne _ hca', read_write_of_ne _ hc']
      · intro c' hc' hout
        rw [read_write_of_ne _ (hout a List.mem_cons_self), read_write_of_ne _ hc']
    · rw [if_neg hax]
      rcases ih h.tail (Nat.lt_of_succ_lt_succ hfuel) with ⟨L', hL', hat, hframe⟩
      -- the rest of the loop does not touch the cells that it has passed
      have hc : L'.read c = L.read c :=
        hframe c (h.outside a List.mem_cons_self)
          fun b hb => h.outside b (List.mem_cons_of_mem a hb)
      refine ⟨L', hL', ?_, ?_⟩
      · have herase : (a :: l).erase x = a :: l.erase x := by
          rw [List.erase_cons_tail]
          simpa using hax
        rw [herase]
        refine ⟨⟨by rw [hc, hsome], hat.path⟩, ?_⟩
        intro b hb
        rcases List.mem_cons.mp hb with rfl | hb
        · exact h.outside b List.mem_cons_self
        · exact h.outside b (List.mem_cons_of_mem a (List.mem_of_mem_erase hb))
      · intro c' hc' hout
        exact hframe c' (hout a List.mem_cons_self)
          fun b hb => hout b (List.mem_cons_of_mem a hb)

theorem At.purge {c : Cell α} (h : L.At c l) (stays : α → Bool) {fuel : ℕ}
    (hfuel : l.length < fuel) :
    ∃ L', Links.purge stays fuel c L = some L' ∧ L'.At c (l.filter stays) ∧
      ∀ c', c' ≠ c → (∀ a ∈ l, c' ≠ .next a) → L'.read c' = L.read c' := by
  induction l generalizing c L fuel with
  | nil =>
    rcases fuel with _ | fuel
    · exact absurd hfuel (Nat.not_lt_zero _)
    · have hnone : L.read c = none := h.path
      exact ⟨L, by simp [Links.purge, hnone], h, fun _ _ _ => rfl⟩
  | cons a l ih =>
    rcases fuel with _ | fuel
    · exact absurd hfuel (Nat.not_lt_zero _)
    simp only [List.length_cons] at hfuel
    have hfuel' := Nat.lt_of_succ_lt_succ hfuel
    have hsome : L.read c = some a := h.path.1
    have hca : c ≠ .next a := h.outside a List.mem_cons_self
    unfold Links.purge
    simp only [hsome]
    by_cases hstay : stays a = true
    · rw [if_pos hstay]
      rcases ih h.tail hfuel' with ⟨L', hL', hat, hframe⟩
      -- a node that stays: the loop has passed the cell that points to it
      have hc : L'.read c = L.read c :=
        hframe c hca fun b hb => h.outside b (List.mem_cons_of_mem a hb)
      refine ⟨L', hL', ?_, ?_⟩
      · rw [List.filter_cons_of_pos hstay]
        refine ⟨⟨by rw [hc, hsome], hat.path⟩, ?_⟩
        intro b hb
        rcases List.mem_cons.mp hb with rfl | hb
        · exact hca
        · exact h.outside b (List.mem_cons_of_mem a (List.mem_filter.mp hb).1)
      · intro c' hc' hout
        exact hframe c' (hout a List.mem_cons_self)
          fun b hb => hout b (List.mem_cons_of_mem a hb)
    · rw [if_neg hstay]
      -- a node that goes: the cell stays and points to the rest
      have hedit : ∀ c', c' ≠ c → c' ≠ .next a →
          ((L.write (.next a) none).write c (L.next a)).read c' = L.read c' := by
        intro c' hc' hca'
        rw [read_write_of_ne _ hc', read_write_of_ne _ hca']
      rcases ih (h.skip (read_write_self _ _ _) hedit) hfuel' with ⟨L', hL', hat, hframe⟩
      refine ⟨L', hL', ?_, ?_⟩
      · rw [List.filter_cons_of_neg hstay]
        exact hat
      · intro c' hc' hout
        rw [hframe c' hc' fun b hb => hout b (List.mem_cons_of_mem a hb)]
        exact hedit c' hc' (hout a List.mem_cons_self)

/-! ## The whole list -/

theorem Holds.unlink (h : L.Holds l) (x : α) {fuel : ℕ} (hfuel : l.length < fuel) :
    ∃ L', Links.unlink x fuel .head L = some L' ∧ L'.Holds (l.erase x) := by
  rcases h.at_head.unlink x hfuel with ⟨L', hL', hat, -⟩
  exact ⟨L', hL', hat.path⟩

theorem Holds.purge (h : L.Holds l) (stays : α → Bool) {fuel : ℕ} (hfuel : l.length < fuel) :
    ∃ L', Links.purge stays fuel .head L = some L' ∧ L'.Holds (l.filter stays) := by
  rcases h.at_head.purge stays hfuel with ⟨L', hL', hat, -⟩
  exact ⟨L', hL', hat.path⟩

/-- `x->next = head; head = x`. -/
def pushFront (L : Links α) (x : α) : Links α := (L.write (.next x) L.head).write .head (some x)

theorem Holds.pushFront (h : L.Holds l) {x : α} (hx : x ∉ l) : (L.pushFront x).Holds (x :: l) := by
  refine ⟨rfl, ?_⟩
  have hnext : (L.pushFront x).next x = L.head := by simp [Links.pushFront, Links.write]
  rw [hnext]
  refine Path.congr (L := L) h fun a ha => ?_
  have hax : a ≠ x := by
    rintro rfl
    exact hx ha
  simp [Links.pushFront, Links.write, Function.update_of_ne hax]

end Links

end AsyncSqlite
