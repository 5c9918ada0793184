import AsyncSqlite.Data.Attempt
import AsyncSqlite.Heap.Store

/-!
# AsyncSqlite.Delegate.HeapArgs — the copies of the arguments of a call

An asynchronous call copies its arguments to the heap: `make_tuple_heap` appends
a copy of each to a tuple, by the overload of `tuple_append` for its type, and a
deleter for the blocks of the copy to the list `heapArgs` of the message. The
deleters run when the message is destroyed.

Which allocations fail is given in advance (`AllocResults`). `xnew` returns
`nullptr` when there is no memory and passes on what the copy constructor throws;
`xmake_shared` and `push_back` throw. A copy that has no deleter yet is freed on
the first way out and lost on the other: what is left behind is counted against
the throws that are used up (`throwing`).
-/

namespace AsyncSqlite

/-- A block: an object, or a pointer to one. -/
inductive HeapCell (V : Type) where
  | object (v : V)
  | pointer (p : Option ℕ)
deriving DecidableEq, Repr

/-- An argument of type `Arg&`, `Arg*` or `Arg**`; `none` is `nullptr`. -/
inductive HeapArg where
  | reference (a : ℕ)
  | pointer (p : Option ℕ)
  | pointerPointer (p : Option ℕ)
deriving DecidableEq, Repr

/-- `heap_arg_deleter<T*>` and `heap_arg_deleter<T**>`. -/
inductive HeapArgDeleter where
  | pointer (m_arg : Option ℕ)
  | pointerPointer (m_arg m_inner : Option ℕ)
deriving DecidableEq, Repr

/-- How the call of a function that allocates ends. -/
inductive AllocResult where
  | made
  | null
  | threw
deriving DecidableEq, Repr

/-- How the calls to come end; those after the end of a list all succeed. -/
structure AllocResults where
  xnew : List AllocResult
  xmake_shared : List AllocResult
  /-- `true` for `std::bad_alloc` -/
  push_back : List Bool
deriving DecidableEq, Repr

/-- How many copy constructors and `xmake_shared` have still to throw. -/
def AllocResults.throwing (r : AllocResults) : ℕ :=
  r.xnew.count .threw + r.xmake_shared.count .threw

/-- The heap, and what `make_tuple_heap` has done so far. -/
structure MakeState (V : Type) where
  store : Store (HeapCell V)
  heapArgs : List HeapArgDeleter
  results : AllocResults

abbrev MakeM (V : Type) : Type → Type := Attempt (MakeState V)

section Code

variable {V : Type}

/-! ## Memory -/

/-- `*a`, for a block that holds a pointer. -/
def fetchPointer (a : ℕ) : MakeM V (Option ℕ) :=
  .act fun s =>
    match s.store.cell a with
    | some (.pointer p) => some (p, s)
    | _ => none

/-- `*a`, for a block that holds an object. -/
def fetchObject (a : ℕ) : MakeM V V :=
  .act fun s =>
    match s.store.cell a with
    | some (.object v) => some (v, s)
    | _ => none

def storePointer (a : ℕ) (p : Option ℕ) : MakeM V Unit :=
  .act fun s => (s.store.set a (.pointer p)).map fun h => ((), { s with store := h })

def xnew (x : HeapCell V) : MakeM V (Option ℕ) := do
  let r ← .act fun s => some (s.results.xnew.headD .made,
    { s with results := { s.results with xnew := s.results.xnew.tail } })
  match r with
  | .made => .act fun s => some (some s.store.next, { s with store := (s.store.alloc x).2 })
  | .null => pure none
  | .threw => .throws

def xdelete : Option ℕ → MakeM V Unit
  | none => pure ()
  | some a => .act fun s => (s.store.free a).map fun h => ((), { s with store := h })

/-- `xmake_shared`; `init` is the constructor. -/
def xmakeShared (init : MakeM V HeapArgDeleter) : MakeM V (Option HeapArgDeleter) := do
  let r ← .act fun s => some (s.results.xmake_shared.headD .made,
    { s with results := { s.results with xmake_shared := s.results.xmake_shared.tail } })
  match r with
  | .made => do return some (← init)
  | .null => pure none
  | .threw => .throws

/-! ## Deleters -/

/-- `~heap_arg_deleter`. -/
def HeapArgDeleter.destroy : HeapArgDeleter → MakeM V Unit
  | .pointer m_arg => xdelete m_arg
  | .pointerPointer m_arg m_inner => do
    match m_arg with
    | none => pure ()
    | some a =>
      let p ← fetchPointer a
      -- the target function has overwritten the pointer
      if p ≠ m_inner then xdelete p
    xdelete m_inner
    xdelete m_arg

/-- The destructor of the list. -/
def destroyAll : List HeapArgDeleter → MakeM V Unit
  | [] => pure ()
  | d :: ds => do
    d.destroy
    destroyAll ds

/-- `heapArgs.push_back(deleter)`. If it throws, the deleter goes with the last
pointer to it. -/
def pushBack (deleter : HeapArgDeleter) : MakeM V Unit := do
  let threw ← .act fun s => some (s.results.push_back.headD false,
    { s with results := { s.results with push_back := s.results.push_back.tail } })
  if threw then
    deleter.destroy
    .throws
  else .act fun s => some ((), { s with heapArgs := s.heapArgs ++ [deleter] })

/-! ## `tuple_append` -/

/-- The end of each overload: the deleter is made and put on the list. `cleanUp`
is for an `xmake_shared` that returns `nullptr`. -/
def appendDeleter (init : MakeM V HeapArgDeleter) (cleanUp : MakeM V Unit) (elem : HeapArg) :
    MakeM V HeapArg := do
  match ← xmakeShared init with
  | none =>
    cleanUp
    .throws
  | some deleter =>
    pushBack deleter
    return elem

/-- The overload for `Arg&`. -/
def tupleAppendReference (arg : ℕ) : MakeM V HeapArg := do
  let v ← fetchObject arg
  match ← xnew (.object v) with
  | none => .throws
  | some heap_arg =>
    appendDeleter (pure (.pointer (some heap_arg))) (xdelete (some heap_arg)) (.reference heap_arg)

/-- The overload for `Arg*`. -/
def tupleAppendPointer : Option ℕ → MakeM V HeapArg
  | none => appendDeleter (pure (.pointer none)) (xdelete none) (.pointer none)
  | some arg => do
    let v ← fetchObject arg
    match ← xnew (.object v) with
    | none => .throws
    | some heap_arg =>
      appendDeleter (pure (.pointer (some heap_arg))) (xdelete (some heap_arg))
        (.pointer (some heap_arg))

/-- `*arg`, if `arg` is not `nullptr` either. -/
def readPointee : Option ℕ → MakeM V (Option ℕ)
  | none => pure none
  | some a => fetchPointer a

/-- The copy of an `Arg**`: the pointer and what it points to. -/
def copyPointerPointer (arg : Option ℕ) : MakeM V ℕ := do
  let pointee ← readPointee arg
  -- `xnew<Arg*>()` or `xnew<Arg*>(nullptr)`
  match ← xnew (.pointer none) with
  | none => .throws
  | some heap_arg =>
    match pointee with
    | none => pure heap_arg
    | some b =>
      let v ← fetchObject b
      match ← xnew (.object v) with
      | none =>
        xdelete (some heap_arg)
        .throws
      | some inner =>
        storePointer heap_arg (some inner)
        return heap_arg

/-- The overload for `Arg**`. -/
def tupleAppendPointerPointer (arg : Option ℕ) : MakeM V HeapArg := do
  let heap_arg ← copyPointerPointer arg
  appendDeleter (do return .pointerPointer (some heap_arg) (← fetchPointer heap_arg))
    (do
      let p ← fetchPointer heap_arg
      xdelete p
      xdelete (some heap_arg))
    (.pointerPointer (some heap_arg))

def tupleAppend : HeapArg → MakeM V HeapArg
  | .reference a => tupleAppendReference a
  | .pointer p => tupleAppendPointer p
  | .pointerPointer p => tupleAppendPointerPointer p

/-- `make_tuple_heap(heapArgs, tup, args...)`. -/
def makeTupleHeap (tup : List HeapArg) : List HeapArg → MakeM V (List HeapArg)
  | [] => pure tup
  | arg :: args => do
    let elem ← tupleAppend arg
    makeTupleHeap (tup ++ [elem]) args

/-! ## `DelegateAsyncMsg` -/

/-- The arguments of a message and their deleters. -/
structure DelegateAsyncMsg where
  m_heapMem : List HeapArgDeleter
  m_args : List HeapArg
deriving DecidableEq, Repr

namespace DelegateAsyncMsg

/-- The constructor: the message, unless it throws, the heap, and the results that
are left. -/
def make (h : Store (HeapCell V)) (results : AllocResults) (args : List HeapArg) :
    Option (Option DelegateAsyncMsg × Store (HeapCell V) × AllocResults) :=
  match (makeTupleHeap [] args).ends ⟨h, [], results⟩ with
  | none => none
  | some (some tup, s) => some (some ⟨s.heapArgs, tup⟩, s.store, s.results)
  | some (none, s) => ((destroyAll s.heapArgs).ends s).map fun r => (none, r.2.store, s.results)

/-- The destructor. -/
def destroy (msg : DelegateAsyncMsg) (h : Store (HeapCell V)) : Option (Store (HeapCell V)) :=
  ((destroyAll msg.m_heapMem).ends ⟨h, [], [], [], []⟩).map fun r => r.2.store

end DelegateAsyncMsg

/-! ## What an argument says -/

end Code

/-- What the callee finds at an argument. -/
inductive ArgValue (V : Type) where
  | reference (v : V)
  | pointer (v : Option V)
  | pointerPointer (v : Option (Option V))
deriving DecidableEq, Repr

/-- An `Arg**` that is `nullptr` arrives as a pointer to a `nullptr`. -/
def ArgValue.arrives {V : Type} : ArgValue V → ArgValue V
  | .pointerPointer none => .pointerPointer (some none)
  | x => x

section Spec

variable {V : Type} {h h' h'' : Store (HeapCell V)} {l l' : List ℕ} {a : ℕ}

/-- The object at an address. -/
def objectAt (h : Store (HeapCell V)) (a : ℕ) : Option V :=
  match h.cell a with
  | some (.object v) => some v
  | _ => none

/-- The pointer at an address. -/
def pointerAt (h : Store (HeapCell V)) (a : ℕ) : Option (Option ℕ) :=
  match h.cell a with
  | some (.pointer p) => some p
  | _ => none

/-- What is found at an argument; `none` if it dangles. -/
def HeapArg.denote (h : Store (HeapCell V)) : HeapArg → Option (ArgValue V)
  | .reference a => (objectAt h a).map .reference
  | .pointer none => some (.pointer none)
  | .pointer (some a) => (objectAt h a).map fun v => .pointer (some v)
  | .pointerPointer none => some (.pointerPointer none)
  | .pointerPointer (some a) =>
    match pointerAt h a with
    | none => none
    | some none => some (.pointerPointer (some none))
    | some (some b) => (objectAt h b).map fun v => .pointerPointer (some (some v))

/-- The blocks that `denote` looks at. -/
def HeapArg.blocks (h : Store (HeapCell V)) : HeapArg → List ℕ
  | .reference a => [a]
  | .pointer p => p.toList
  | .pointerPointer none => []
  | .pointerPointer (some a) => ((pointerAt h a).bind id).toList ++ [a]

theorem cell_of_objectAt {v : V} (hv : objectAt h a = some v) : h.cell a = some (.object v) := by
  unfold objectAt at hv
  split at hv
  · rename_i w hw
    cases hv
    exact hw
  · cases hv

theorem cell_of_pointerAt {p : Option ℕ} (hp : pointerAt h a = some p) :
    h.cell a = some (.pointer p) := by
  unfold pointerAt at hp
  split at hp
  · rename_i q hq
    cases hp
    exact hq
  · cases hp

theorem objectAt_congr (heq : h'.cell a = h.cell a) : objectAt h' a = objectAt h a := by
  unfold objectAt
  rw [heq]

theorem pointerAt_congr (heq : h'.cell a = h.cell a) : pointerAt h' a = pointerAt h a := by
  unfold pointerAt
  rw [heq]

/-- What is found depends on the blocks that are looked at only. -/
theorem HeapArg.denote_congr {e : HeapArg} (heq : ∀ a ∈ e.blocks h, h'.cell a = h.cell a) :
    e.denote h' = e.denote h := by
  cases e with
  | reference a =>
    simp only [HeapArg.denote]
    rw [objectAt_congr (heq a (by simp [HeapArg.blocks]))]
  | pointer p =>
    cases p with
    | none => rfl
    | some a =>
      simp only [HeapArg.denote]
      rw [objectAt_congr (heq a (by simp [HeapArg.blocks]))]
  | pointerPointer p =>
    cases p with
    | none => rfl
    | some a =>
      simp only [HeapArg.denote]
      rw [pointerAt_congr (heq a (by simp [HeapArg.blocks]))]
      cases hp : pointerAt h a with
      | none => rfl
      | some q =>
        cases q with
        | none => rfl
        | some b =>
          dsimp only
          rw [objectAt_congr (heq b (by simp [HeapArg.blocks, hp]))]

theorem HeapArg.blocks_congr {e : HeapArg} (heq : ∀ a ∈ e.blocks h, h'.cell a = h.cell a) :
    e.blocks h' = e.blocks h := by
  cases e with
  | reference a => rfl
  | pointer p => rfl
  | pointerPointer p =>
    cases p with
    | none => rfl
    | some a =>
      simp only [HeapArg.blocks]
      rw [pointerAt_congr (heq a (by simp [HeapArg.blocks]))]

/-! ## What a deleter frees -/

/-- The pointer that was written over the one that the deleter took with it. -/
def overwritten (h : Store (HeapCell V)) (m_arg m_inner : Option ℕ) : Option ℕ :=
  match m_arg.bind (pointerAt h) with
  | none => none
  | some p => if p ≠ m_inner then p else none

/-- What the deleter frees, in order. -/
def HeapArgDeleter.frees (h : Store (HeapCell V)) : HeapArgDeleter → List ℕ
  | .pointer m_arg => m_arg.toList
  | .pointerPointer m_arg m_inner =>
    (overwritten h m_arg m_inner).toList ++ (m_inner.toList ++ m_arg.toList)

def freesAll (h : Store (HeapCell V)) (ds : List HeapArgDeleter) : List ℕ := ds.flatMap (·.frees h)

/-- The `Arg*` of an `Arg**` is there. -/
def HeapArgDeleter.Sound (h : Store (HeapCell V)) : HeapArgDeleter → Prop
  | .pointer _ => True
  | .pointerPointer m_arg _ => ∀ a, m_arg = some a → ∃ p, pointerAt h a = some p

variable {d : HeapArgDeleter} {ds : List HeapArgDeleter}

theorem HeapArgDeleter.frees_congr (heq : ∀ a ∈ d.frees h, h'.cell a = h.cell a) :
    d.frees h' = d.frees h := by
  cases d with
  | pointer m_arg => rfl
  | pointerPointer m_arg m_inner =>
    cases m_arg with
    | none => rfl
    | some a =>
      have ha : pointerAt h' a = pointerAt h a :=
        pointerAt_congr (heq a (by simp [HeapArgDeleter.frees]))
      simp only [HeapArgDeleter.frees, overwritten, Option.bind_some, ha]

theorem HeapArgDeleter.Sound.congr (hs : d.Sound h)
    (heq : ∀ a ∈ d.frees h, h'.cell a = h.cell a) : d.Sound h' := by
  cases d with
  | pointer m_arg => trivial
  | pointerPointer m_arg m_inner =>
    intro a ha
    subst ha
    rw [pointerAt_congr (heq a (by simp [HeapArgDeleter.frees]))]
    exact hs a rfl

theorem mem_freesAll : a ∈ freesAll h ds ↔ ∃ d ∈ ds, a ∈ d.frees h := List.mem_flatMap

theorem freesAll_congr (heq : ∀ a ∈ freesAll h ds, h'.cell a = h.cell a) :
    freesAll h' ds = freesAll h ds := by
  unfold freesAll
  apply List.flatMap_congr
  intro d hd
  exact HeapArgDeleter.frees_congr fun a ha => heq a (mem_freesAll.mpr ⟨d, hd, ha⟩)

/-! ## Rules -/

open Attempt

variable {s : MakeState V} {Q : Unit → MakeState V → Prop} {E : MakeState V → Prop}

theorem wp_fetchPointer {R : Option ℕ → MakeState V → Prop} {p : Option ℕ}
    (hp : pointerAt s.store a = some p) (hR : R p s) : wp (fetchPointer a) R E s := by
  unfold fetchPointer
  rw [wp_act]
  refine ⟨p, s, ?_, hR⟩
  rw [cell_of_pointerAt hp]

theorem wp_fetchObject {R : V → MakeState V → Prop} {v : V}
    (hv : objectAt s.store a = some v) (hR : R v s) : wp (fetchObject a) R E s := by
  unfold fetchObject
  rw [wp_act]
  refine ⟨v, s, ?_, hR⟩
  rw [cell_of_objectAt hv]

theorem wp_storePointer {p : Option ℕ} (hset : s.store.set a (.pointer p) = some h)
    (hQ : Q () { s with store := h }) : wp (storePointer a p) Q E s := by
  unfold storePointer
  rw [wp_act]
  exact ⟨(), _, by rw [hset]; rfl, hQ⟩

/-- `xdelete` of a pointer frees what it points to, if anything. -/
theorem wp_xdelete {p : Option ℕ} (hfree : s.store.freeAll p.toList = some h)
    (hQ : Q () { s with store := h }) : wp (xdelete p) Q E s := by
  cases p with
  | none =>
    cases hfree
    exact hQ
  | some a =>
    unfold xdelete
    rw [wp_act]
    simp only [Option.toList_some, Store.freeAll, Option.bind_eq_some_iff] at hfree
    rcases hfree with ⟨h₁, ha, heq⟩
    cases heq
    exact ⟨(), _, by rw [ha]; rfl, hQ⟩

/-- `~heap_arg_deleter` frees what `frees` says. -/
theorem HeapArgDeleter.wp_destroy (hs : d.Sound s.store)
    (hfree : s.store.freeAll (d.frees s.store) = some h) (hQ : Q () { s with store := h }) :
    wp d.destroy Q E s := by
  cases d with
  | pointer m_arg => exact wp_xdelete hfree hQ
  | pointerPointer m_arg m_inner =>
    simp only [HeapArgDeleter.frees] at hfree
    rw [Store.freeAll_append, Option.bind_eq_some_iff] at hfree
    rcases hfree with ⟨h₁, hover, hrest⟩
    rw [Store.freeAll_append, Option.bind_eq_some_iff] at hrest
    rcases hrest with ⟨h₂, hinner, harg⟩
    have hlast : ∀ t : MakeState V, t = { s with store := h₁ } →
        wp (do xdelete m_inner; xdelete m_arg) Q E t := by
      rintro t rfl
      rw [wp_bind]
      exact wp_xdelete hinner (wp_xdelete harg hQ)
    unfold HeapArgDeleter.destroy
    cases m_arg with
    | none =>
      cases hover
      exact hlast s rfl
    | some a =>
      rcases hs a rfl with ⟨p, hp⟩
      simp only [overwritten, Option.bind_some, hp] at hover
      rw [wp_bind]
      refine wp_fetchPointer hp ?_
      by_cases hne : p ≠ m_inner
      · rw [if_pos hne] at hover
        rw [if_pos hne, wp_bind]
        exact wp_xdelete hover (hlast _ rfl)
      · rw [if_neg hne] at hover
        cases hover
        rw [if_neg hne]
        exact hlast s rfl

/-- The deleters of a list free their blocks one after another: none looks at a
block that is gone. -/
theorem wp_destroyAll (hs : ∀ d ∈ ds, d.Sound s.store)
    (hfree : s.store.freeAll (freesAll s.store ds) = some h) (hQ : Q () { s with store := h }) :
    wp (destroyAll ds) Q E s := by
  induction ds generalizing s with
  | nil =>
    cases hfree
    exact hQ
  | cons d ds ih =>
    have hnodup := (Store.freeAll_spec hfree).1
    have hsplit : freesAll s.store (d :: ds) = d.frees s.store ++ freesAll s.store ds := rfl
    rw [hsplit] at hfree hnodup
    rw [Store.freeAll_append, Option.bind_eq_some_iff] at hfree
    rcases hfree with ⟨h₁, hfirst, hrest⟩
    have hsame : ∀ a ∈ freesAll s.store ds, h₁.cell a = s.store.cell a := by
      intro a ha
      have hnot : a ∉ d.frees s.store := fun hmem =>
        List.disjoint_of_nodup_append hnodup hmem ha
      rw [(Store.freeAll_spec hfirst).2.2.2 a, if_neg hnot]
    unfold destroyAll
    rw [wp_bind]
    refine HeapArgDeleter.wp_destroy (hs d (List.mem_cons_self ..)) hfirst ?_
    apply ih
    · intro d' hd'
      refine (hs d' (List.mem_cons_of_mem _ hd')).congr ?_
      intro a ha
      exact hsame a (mem_freesAll.mpr ⟨d', hd', ha⟩)
    · rw [← freesAll_congr hsame] at hrest
      exact hrest
    · exact hQ

/-! ## What `make_tuple_heap` leaves -/

open Store

theorem count_tail_of_head {l : List AllocResult} (h : l.headD .made = .made) :
    l.tail.count .threw = l.count .threw := by
  cases l with
  | nil => rfl
  | cons r l =>
    rw [show r = AllocResult.made from h, List.count_cons_of_ne (by decide)]
    rfl

theorem count_tail_lt {l : List AllocResult} (h : l.headD .made = .threw) :
    l.tail.count .threw < l.count .threw := by
  cases l with
  | nil => cases h
  | cons r l =>
    rw [show r = AllocResult.threw from h, List.count_cons_self]
    exact Nat.lt_succ_self _

theorem wp_xnew {x : HeapCell V} {R : Option ℕ → MakeState V → Prop}
    (hmade : ∀ r, r.throwing = s.results.throwing →
      R (some s.store.next) ⟨(s.store.alloc x).2, s.heapArgs, r⟩)
    (hnull : ∀ r, R none ⟨s.store, s.heapArgs, r⟩)
    (hthrew : ∀ r, r.throwing ≠ s.results.throwing → E ⟨s.store, s.heapArgs, r⟩) :
    wp (xnew x) R E s := by
  unfold xnew
  rw [wp_bind, wp_act]
  refine ⟨_, _, rfl, ?_⟩
  cases hr : s.results.xnew.headD .made with
  | made =>
    dsimp only
    rw [wp_act]
    refine ⟨_, _, rfl, hmade _ ?_⟩
    exact congrArg (· + _) (count_tail_of_head hr)
  | null => exact hnull _
  | threw =>
    refine hthrew _ (Nat.ne_of_lt ?_)
    exact Nat.add_lt_add_right (count_tail_lt hr) _

theorem wp_xmakeShared {init : MakeM V HeapArgDeleter}
    {R : Option HeapArgDeleter → MakeState V → Prop}
    (hmade : ∀ r, r.throwing = s.results.throwing →
      wp init (fun d => R (some d)) E ⟨s.store, s.heapArgs, r⟩)
    (hnull : ∀ r, R none ⟨s.store, s.heapArgs, r⟩)
    (hthrew : ∀ r, r.throwing ≠ s.results.throwing → E ⟨s.store, s.heapArgs, r⟩) :
    wp (xmakeShared init) R E s := by
  unfold xmakeShared
  rw [wp_bind, wp_act]
  refine ⟨_, _, rfl, ?_⟩
  cases hr : s.results.xmake_shared.headD .made with
  | made =>
    dsimp only
    rw [wp_bind]
    refine hmade _ ?_
    exact congrArg (_ + ·) (count_tail_of_head hr)
  | null => exact hnull _
  | threw =>
    refine hthrew _ (Nat.ne_of_lt ?_)
    exact Nat.add_lt_add_left (count_tail_lt hr) _

theorem wp_pushBack (hs : d.Sound s.store) (hfree : s.store.freeAll (d.frees s.store) = some h)
    (hmade : ∀ r, r.throwing = s.results.throwing → Q () ⟨s.store, s.heapArgs ++ [d], r⟩)
    (hthrew : ∀ r, E ⟨h, s.heapArgs, r⟩) : wp (pushBack d) Q E s := by
  unfold pushBack
  rw [wp_bind, wp_act]
  refine ⟨_, _, rfl, ?_⟩
  cases s.results.push_back.headD false with
  | true =>
    rw [if_pos rfl, wp_bind]
    exact HeapArgDeleter.wp_destroy hs hfree (hthrew _)
  | false =>
    rw [if_neg Bool.false_ne_true, wp_act]
    exact ⟨_, _, rfl, hmade _ rfl⟩

/-- The copy `e` of an argument with the value `x` and the deleter `d` were made. -/
structure Appended (s : MakeState V) (x : ArgValue V) (d : HeapArgDeleter) (e : HeapArg)
    (s' : MakeState V) : Prop where
  heapArgs : s'.heapArgs = s.heapArgs ++ [d]
  grows : Grows s.store s'.store (d.frees s'.store)
  sound : d.Sound s'.store
  denote : e.denote s'.store = some x.arrives
  blocks : ∀ a ∈ e.blocks s'.store, a ∈ d.frees s'.store
  throwing : s'.results.throwing = s.results.throwing

/-- The copy of an argument was not made. Two blocks at most are lost. -/
structure NotAppended (s s' : MakeState V) : Prop where
  heapArgs : s'.heapArgs = s.heapArgs
  grows : ∃ lost, Grows s.store s'.store lost ∧ lost.length ≤ 2 ∧
    (s'.results.throwing = s.results.throwing → lost = [])

/-- Once the copy is made, its deleter is made too, or the copy freed, unless
`xmake_shared` throws. -/
theorem wp_appendDeleter {s₁ : MakeState V} {x : ArgValue V} {e : HeapArg}
    {init : MakeM V HeapArgDeleter} {cleanUp : MakeM V Unit}
    (happ : ∀ r, r.throwing = s.results.throwing →
      Appended s x d e ⟨s₁.store, s.heapArgs ++ [d], r⟩)
    (hheapArgs : s₁.heapArgs = s.heapArgs) (hthrowing : s₁.results.throwing = s.results.throwing)
    (hlen : (d.frees s₁.store).length ≤ 2)
    (hinit : ∀ (R : HeapArgDeleter → MakeState V → Prop) (r : AllocResults),
      R d ⟨s₁.store, s₁.heapArgs, r⟩ → wp init R (NotAppended s) ⟨s₁.store, s₁.heapArgs, r⟩)
    (hclean : ∀ (Q : Unit → MakeState V → Prop) (r : AllocResults) (h : Store (HeapCell V)),
      s₁.store.freeAll (d.frees s₁.store) = some h → Q () ⟨h, s₁.heapArgs, r⟩ →
      wp cleanUp Q (NotAppended s) ⟨s₁.store, s₁.heapArgs, r⟩) :
    wp (appendDeleter init cleanUp e) (fun e' s' => ∃ d, Appended s x d e' s') (NotAppended s)
      s₁ := by
  have hgrows : Grows s.store s₁.store (d.frees s₁.store) := (happ s.results rfl).grows
  have hsound : d.Sound s₁.store := (happ s.results rfl).sound
  rcases freeAll_iff.mpr ⟨hgrows.nodup, fun a ha => hgrows.live ha⟩ with ⟨h, hfree⟩
  have hfreed : ∀ r, NotAppended s ⟨h, s₁.heapArgs, r⟩ := by
    intro r
    refine ⟨hheapArgs, [], ?_, Nat.zero_le _, fun _ => rfl⟩
    exact hgrows.freeAll_self hfree
  unfold appendDeleter
  rw [wp_bind]
  refine wp_xmakeShared ?_ ?_ ?_
  · intro r hr
    refine hinit _ r ?_
    dsimp only
    rw [wp_bind]
    refine wp_pushBack hsound hfree ?_ hfreed
    intro r' hr'
    rw [wp_pure, hheapArgs]
    exact ⟨d, happ r' (hr'.trans (hr.trans hthrowing))⟩
  · intro r
    dsimp only
    rw [wp_bind]
    exact hclean _ r h hfree (hfreed r)
  · intro r hnot
    refine ⟨hheapArgs, d.frees s₁.store, hgrows, hlen, fun hc => ?_⟩
    exact absurd (hc.trans hthrowing.symm) hnot

/-- An allocation that fails leaves everything as it was. -/
theorem NotAppended.of_store {r : AllocResults} : NotAppended s ⟨s.store, s.heapArgs, r⟩ where
  heapArgs := rfl
  grows := ⟨[], Grows.refl _, Nat.zero_le _, fun _ => rfl⟩

/-- The copy of one object, by either overload. -/
theorem wp_copyObject {v : V} {x : ArgValue V} {f : ℕ → HeapArg}
    (hdenote : ∀ a h, objectAt h a = some v → (f a).denote h = some x.arrives)
    (hblocks : ∀ a h, (f a).blocks (V := V) h = [a]) :
    wp (do
      match ← xnew (.object v) with
      | none => throws
      | some heap_arg =>
        appendDeleter (pure (.pointer (some heap_arg))) (xdelete (some heap_arg)) (f heap_arg))
      (fun e s' => ∃ d, Appended s x d e s') (NotAppended s) s := by
  rw [wp_bind]
  refine wp_xnew ?_ ?_ ?_
  · intro r hr
    have hobject : objectAt (s.store.alloc (.object v)).2 s.store.next = some v := by
      simp [objectAt]
    have hlen : ((HeapArgDeleter.pointer (some s.store.next)).frees
        (s.store.alloc (.object v)).2).length ≤ 2 := by
      simp [HeapArgDeleter.frees]
    refine wp_appendDeleter (d := .pointer (some s.store.next)) ?_ rfl hr hlen ?_ ?_
    · intro r' hr'
      exact
        { heapArgs := rfl
          grows := Grows.alloc _ _
          sound := trivial
          denote := hdenote _ _ hobject
          blocks := by
            intro a ha
            rwa [hblocks] at ha
          throwing := hr' }
    · exact fun R r' hR => hR
    · exact fun Q r' h hfree hQ => wp_xdelete hfree hQ
  · exact fun r => NotAppended.of_store
  · exact fun r _ => NotAppended.of_store

theorem denote_reference {x : ArgValue V} (hx : (HeapArg.reference a).denote h = some x) :
    ∃ v, objectAt h a = some v ∧ x = .reference v := by
  rcases Option.map_eq_some_iff.mp hx with ⟨v, hv, rfl⟩
  exact ⟨v, hv, rfl⟩

theorem denote_pointer {x : ArgValue V} (hx : (HeapArg.pointer (some a)).denote h = some x) :
    ∃ v, objectAt h a = some v ∧ x = .pointer (some v) := by
  rcases Option.map_eq_some_iff.mp hx with ⟨v, hv, rfl⟩
  exact ⟨v, hv, rfl⟩

/-- The copy of an `Arg**` and of what it leads to. -/
theorem wp_copyPointerPointer {arg : Option ℕ} {x : ArgValue V}
    (hx : (HeapArg.pointerPointer arg).denote s.store = some x) :
    wp (copyPointerPointer arg)
      (fun a s' => ∃ q, s'.heapArgs = s.heapArgs ∧ pointerAt s'.store a = some q ∧
        Grows s.store s'.store (q.toList ++ [a]) ∧
        (HeapArg.pointerPointer (some a)).denote s'.store = some x.arrives ∧
        s'.results.throwing = s.results.throwing)
      (NotAppended s) s := by
  -- the pointer that is copied, and where the object it leads to is read
  have hread : ∃ pointee : Option ℕ,
      (∀ R : Option ℕ → MakeState V → Prop, R pointee s →
        wp (readPointee arg) R (NotAppended s) s) ∧
      (pointee = none ∧ x.arrives = .pointerPointer (some none) ∨
        ∃ b v, pointee = some b ∧ objectAt s.store b = some v ∧
          x.arrives = .pointerPointer (some (some v))) := by
    cases arg with
    | none =>
      cases hx
      exact ⟨none, fun R hR => hR, Or.inl ⟨rfl, rfl⟩⟩
    | some a =>
      simp only [HeapArg.denote] at hx
      cases hp : pointerAt s.store a with
      | none =>
        rw [hp] at hx
        cases hx
      | some p =>
        rw [hp] at hx
        refine ⟨p, fun R hR => wp_fetchPointer hp hR, ?_⟩
        cases p with
        | none =>
          cases hx
          exact Or.inl ⟨rfl, rfl⟩
        | some b =>
          rcases Option.map_eq_some_iff.mp hx with ⟨v, hv, rfl⟩
          exact Or.inr ⟨b, v, rfl, hv, rfl⟩
  rcases hread with ⟨pointee, hread, hcases⟩
  have hgrow := Grows.alloc s.store (.pointer none)
  have hnull : pointerAt (s.store.alloc (.pointer none)).2 s.store.next = some none := by
    simp [pointerAt]
  unfold copyPointerPointer
  rw [wp_bind]
  apply hread
  rw [wp_bind]
  refine wp_xnew ?_ (fun r => NotAppended.of_store) (fun r _ => NotAppended.of_store)
  intro r hr
  rcases hcases with ⟨rfl, harr⟩ | ⟨b, v, rfl, hv, harr⟩
  · refine ⟨none, rfl, hnull, hgrow, ?_, hr⟩
    simp [HeapArg.denote, hnull, harr]
  · -- the object is where it was: the outer block is a new one
    have hold : objectAt (s.store.alloc (.pointer none)).2 b = some v := by
      rw [objectAt_congr (hgrow.cell_of_live (live_of_cell (cell_of_objectAt hv)))]
      exact hv
    rw [wp_bind]
    refine wp_fetchObject hold ?_
    rw [wp_bind]
    refine wp_xnew ?_ ?_ ?_
    · intro r' hr'
      dsimp only at hr' ⊢
      have hgrow' := hgrow.trans (Grows.alloc _ (.object v))
      have hlive := hgrow'.live (List.mem_append_left _ (List.mem_singleton_self _))
      rcases set_of_live hlive (.pointer (some (s.store.alloc (.pointer none)).2.next)) with
        ⟨h', hset⟩
      have hcell := (set_spec hset).2.2
      have hpointer : pointerAt h' s.store.next = some (some (s.store.next + 1)) := by
        simp [pointerAt, hcell]
      have hobject : objectAt h' (s.store.next + 1) = some v := by
        have hinner : ((s.store.alloc (.pointer none)).2.alloc (.object v)).2.cell
            (s.store.next + 1) = some (.object v) := alloc_self
        simp [objectAt, hcell, hinner]
      rw [wp_bind]
      refine wp_storePointer hset ?_
      refine ⟨some (s.store.next + 1), rfl, hpointer, ?_, ?_, ?_⟩
      · exact (hgrow'.set (List.mem_append_left _ (List.mem_singleton_self _)) hset).perm
          List.perm_append_comm
      · simp [HeapArg.denote, hpointer, hobject, harr]
      · exact hr'.trans hr
    · -- the outer block is freed again
      intro r'
      dsimp only
      rcases freeAll_iff.mpr ⟨hgrow.nodup, fun a ha => hgrow.live ha⟩ with ⟨h', hfree⟩
      rw [wp_bind]
      refine wp_xdelete hfree ?_
      exact ⟨rfl, [], hgrow.freeAll_self hfree, Nat.zero_le _, fun _ => rfl⟩
    · intro r' hnot
      exact ⟨rfl, _, hgrow, by simp, fun hc => absurd (hc.trans hr.symm) hnot⟩

/-- One argument: a copy with a deleter, or none. -/
theorem wp_tupleAppend {arg : HeapArg} {x : ArgValue V} (hx : arg.denote s.store = some x) :
    wp (tupleAppend arg) (fun e s' => ∃ d, Appended s x d e s') (NotAppended s) s := by
  cases arg with
  | reference a =>
    rcases denote_reference hx with ⟨v, hv, rfl⟩
    simp only [tupleAppend, tupleAppendReference]
    rw [wp_bind]
    refine wp_fetchObject hv (wp_copyObject ?_ fun a h => rfl)
    intro a h hv
    simp [HeapArg.denote, hv, ArgValue.arrives]
  | pointer p =>
    cases p with
    | none =>
      cases hx
      simp only [tupleAppend, tupleAppendPointer]
      refine wp_appendDeleter (d := .pointer none) ?_ rfl rfl (Nat.zero_le _) ?_ ?_
      · intro r hr
        exact
          { heapArgs := rfl
            grows := Grows.refl _
            sound := trivial
            denote := rfl
            blocks := fun a ha => ha
            throwing := hr }
      · exact fun R r hR => hR
      · exact fun Q r h hfree hQ => wp_xdelete hfree hQ
    | some a =>
      rcases denote_pointer hx with ⟨v, hv, rfl⟩
      simp only [tupleAppend, tupleAppendPointer]
      rw [wp_bind]
      refine wp_fetchObject hv (wp_copyObject ?_ fun a h => rfl)
      intro a h hv
      simp [HeapArg.denote, hv, ArgValue.arrives]
  | pointerPointer p =>
    simp only [tupleAppend, tupleAppendPointerPointer]
    rw [wp_bind]
    refine wp_mono (wp_copyPointerPointer hx) ?_ (fun s' h => h)
    rintro a s₁ ⟨q, hheapArgs, hpointer, hgrows, hdenote, hthrowing⟩
    have hfrees : (HeapArgDeleter.pointerPointer (some a) q).frees s₁.store = q.toList ++ [a] := by
      simp [HeapArgDeleter.frees, overwritten, hpointer]
    refine wp_appendDeleter (d := .pointerPointer (some a) q) ?_ hheapArgs hthrowing ?_ ?_ ?_
    · intro r hr
      exact
        { heapArgs := rfl
          grows := by
            rw [hfrees]
            exact hgrows
          sound := by
            intro b hb
            cases hb
            exact ⟨q, hpointer⟩
          denote := hdenote
          blocks := by
            intro b hb
            rw [hfrees]
            simpa [HeapArg.blocks, hpointer] using hb
          throwing := hr }
    · rw [hfrees]
      cases q with
      | none => simp
      | some b => simp
    · intro R r hR
      rw [wp_bind]
      exact wp_fetchPointer hpointer hR
    · intro Q r h hfree hQ
      rw [hfrees, freeAll_append, Option.bind_eq_some_iff] at hfree
      rcases hfree with ⟨h₁, hinner, houter⟩
      rw [wp_bind]
      refine wp_fetchPointer hpointer ?_
      rw [wp_bind]
      exact wp_xdelete hinner (wp_xdelete houter hQ)

/-! ## All arguments -/

theorem denote_grows {e : HeapArg} {x : ArgValue V} (hg : Grows h h' l)
    (hx : e.denote h = some x) (hlive : ∀ a ∈ e.blocks h, h.Live a) :
    e.denote h' = some x := by
  rw [HeapArg.denote_congr fun a ha => hg.cell_of_live (hlive a ha)]
  exact hx

/-- An argument that does not dangle leads to blocks that are there. -/
theorem live_of_denote {e : HeapArg} {x : ArgValue V} (hx : e.denote h = some x) :
    ∀ a ∈ e.blocks h, h.Live a := by
  cases e with
  | reference a =>
    rcases denote_reference hx with ⟨v, hv, -⟩
    intro b hb
    rw [List.mem_singleton.mp hb]
    exact live_of_cell (cell_of_objectAt hv)
  | pointer p =>
    intro b hb
    cases p with
    | none => cases hb
    | some a =>
      rcases denote_pointer hx with ⟨v, hv, -⟩
      rw [List.mem_singleton.mp hb]
      exact live_of_cell (cell_of_objectAt hv)
  | pointerPointer p =>
    intro b hb
    cases p with
    | none => cases hb
    | some a =>
      simp only [HeapArg.denote] at hx
      cases hp : pointerAt h a with
      | none =>
        rw [hp] at hx
        cases hx
      | some q =>
        rw [hp] at hx
        simp only [HeapArg.blocks, hp, List.mem_append, List.mem_singleton] at hb
        rcases hb with hb | rfl
        · have hq : q = some b := by simpa using hb
          subst hq
          rcases Option.map_eq_some_iff.mp hx with ⟨v, hv, -⟩
          exact live_of_cell (cell_of_objectAt hv)
        · exact live_of_cell (cell_of_pointerAt hp)

/-- The values of a list of arguments. -/
def denotes (h : Store (HeapCell V)) (args : List HeapArg) (xs : List (ArgValue V)) : Prop :=
  List.Forall₂ (fun e x => e.denote h = some x) args xs

theorem denotes_congr {args : List HeapArg} {xs : List (ArgValue V)} (hxs : denotes h args xs)
    (heq : ∀ e ∈ args, ∀ a ∈ e.blocks h, h'.cell a = h.cell a) : denotes h' args xs := by
  refine List.Forall₂.imp ?_ ((List.forall₂_and_left _ _).mpr ⟨heq, hxs⟩)
  rintro e x ⟨hsame, hx⟩
  rw [HeapArg.denote_congr hsame]
  exact hx

/-- The blocks of new deleters, once further ones were added. -/
theorem Appended.later {s' s'' : MakeState V} {x : ArgValue V} {e : HeapArg}
    (happ : Appended s x d e s') (hg : Grows s'.store s''.store l) :
    d.frees s''.store = d.frees s'.store ∧ d.Sound s''.store ∧
      e.blocks s''.store = e.blocks s'.store ∧ e.denote s''.store = some x.arrives := by
  have hsame : ∀ a ∈ d.frees s'.store, s''.store.cell a = s'.store.cell a := fun a ha =>
    hg.cell_of_live (happ.grows.live ha)
  exact ⟨HeapArgDeleter.frees_congr hsame, happ.sound.congr hsame,
    HeapArg.blocks_congr fun a ha => hsame a (happ.blocks a ha),
    denote_grows hg happ.denote (live_of_denote happ.denote)⟩

/-- The deleters `ds` are those of the copies `es`, which have these values. -/
structure Copied (s : MakeState V) (xs : List (ArgValue V)) (ds : List HeapArgDeleter)
    (es : List HeapArg) (s' : MakeState V) : Prop where
  heapArgs : s'.heapArgs = s.heapArgs ++ ds
  grows : Grows s.store s'.store (freesAll s'.store ds)
  sound : ∀ d ∈ ds, d.Sound s'.store
  denote : denotes s'.store es (xs.map (·.arrives))
  blocks : ∀ e ∈ es, ∀ a ∈ e.blocks s'.store, a ∈ freesAll s'.store ds

/-- Some arguments were copied, and then one was not. -/
structure NotCopied (s : MakeState V) (ds : List HeapArgDeleter) (lost : List ℕ)
    (s' : MakeState V) : Prop where
  heapArgs : s'.heapArgs = s.heapArgs ++ ds
  grows : Grows s.store s'.store (freesAll s'.store ds ++ lost)
  sound : ∀ d ∈ ds, d.Sound s'.store
  length : lost.length ≤ 2
  throwing : s'.results.throwing = s.results.throwing → lost = []

/-- The induction over the arguments: the first copy stays as it is while the
others are made. -/
theorem wp_makeTupleHeap (tup : List HeapArg) {args : List HeapArg} {xs : List (ArgValue V)}
    (hxs : denotes s.store args xs) :
    wp (makeTupleHeap tup args) (fun tup' s' => ∃ ds es, tup' = tup ++ es ∧ Copied s xs ds es s')
      (fun s' => ∃ ds lost, NotCopied s ds lost s') s := by
  induction args generalizing tup xs s with
  | nil =>
    cases hxs
    refine ⟨[], [], by simp, ?_⟩
    exact
      { heapArgs := by simp
        grows := Grows.refl _
        sound := fun d hd => by cases hd
        denote := List.Forall₂.nil
        blocks := fun e he => by cases he }
  | cons arg args ih =>
    cases hxs with
    | cons hx hrest =>
      rename_i x xs
      unfold makeTupleHeap
      rw [wp_bind]
      refine wp_mono (wp_tupleAppend hx) ?_ ?_
      · rintro e s₁ ⟨d, happ⟩
        have hxs₁ : denotes s₁.store args xs := by
          refine List.Forall₂.imp ?_ hrest
          intro arg' x' hx'
          exact denote_grows happ.grows hx' (live_of_denote hx')
        refine wp_mono (ih _ hxs₁) ?_ ?_
        · rintro tup' s' ⟨ds, es, rfl, hcopied⟩
          rcases happ.later hcopied.grows with ⟨hfrees, hsound, hblocks, hdenote⟩
          refine ⟨d :: ds, e :: es, by simp, ?_⟩
          exact
            { heapArgs := by rw [hcopied.heapArgs, happ.heapArgs]; simp
              grows := by
                have hgrows := happ.grows.trans hcopied.grows
                rw [← hfrees] at hgrows
                exact hgrows
              sound := by
                intro d' hd'
                rcases List.mem_cons.mp hd' with rfl | hd'
                · exact hsound
                · exact hcopied.sound d' hd'
              denote := List.Forall₂.cons hdenote hcopied.denote
              blocks := by
                intro e' he' a ha
                rcases List.mem_cons.mp he' with rfl | he'
                · rw [hblocks] at ha
                  refine mem_freesAll.mpr ⟨d, List.mem_cons_self .., ?_⟩
                  rw [hfrees]
                  exact happ.blocks a ha
                · rcases mem_freesAll.mp (hcopied.blocks e' he' a ha) with ⟨d', hd', hmem⟩
                  exact mem_freesAll.mpr ⟨d', List.mem_cons_of_mem _ hd', hmem⟩ }
        · rintro s' ⟨ds, lost, hnot⟩
          rcases happ.later hnot.grows with ⟨hfrees, hsound, -, -⟩
          refine ⟨d :: ds, lost, ?_⟩
          exact
            { heapArgs := by rw [hnot.heapArgs, happ.heapArgs]; simp
              grows := by
                have hgrows := happ.grows.trans hnot.grows
                rw [← hfrees, ← List.append_assoc] at hgrows
                exact hgrows
              sound := by
                intro d' hd'
                rcases List.mem_cons.mp hd' with rfl | hd'
                · exact hsound
                · exact hnot.sound d' hd'
              length := hnot.length
              throwing := fun hc => hnot.throwing (hc.trans happ.throwing.symm) }
      · rintro s₁ ⟨hheapArgs, lost, hgrows, hlen, hthrowing⟩
        refine ⟨[], lost, ?_⟩
        exact
          { heapArgs := by rw [hheapArgs, List.append_nil]
            grows := hgrows
            sound := fun d hd => by cases hd
            length := hlen
            throwing := hthrowing }

namespace DelegateAsyncMsg

/-- What the deleters of the message free. -/
def frees (h : Store (HeapCell V)) (msg : DelegateAsyncMsg) : List ℕ := freesAll h msg.m_heapMem

def Sound (h : Store (HeapCell V)) (msg : DelegateAsyncMsg) : Prop :=
  ∀ d ∈ msg.m_heapMem, d.Sound h

/-- The constructor copies every argument, or leaves the heap as it was but for
the copy that it was at. -/
theorem make_spec (results : AllocResults) {args : List HeapArg} {xs : List (ArgValue V)}
    (hxs : denotes h args xs) :
    (∃ msg h' rest, make h results args = some (some msg, h', rest) ∧
      Grows h h' (msg.frees h') ∧ msg.Sound h' ∧
      denotes h' msg.m_args (xs.map (·.arrives)) ∧
      ∀ e ∈ msg.m_args, ∀ a ∈ e.blocks h', a ∈ msg.frees h') ∨
    ∃ lost h' rest, make h results args = some (none, h', rest) ∧ Grows h h' lost ∧
      lost.length ≤ 2 ∧ (rest.throwing = results.throwing → lost = []) := by
  have hwp := wp_makeTupleHeap (s := ⟨h, [], results⟩) [] hxs
  rcases ends_of_wp hwp with ⟨tup, s', hends, ds, es, rfl, hcopied⟩ |
    ⟨s', hends, ds, lost, hnot⟩
  · left
    have hheapArgs : s'.heapArgs = ds := hcopied.heapArgs
    refine ⟨⟨s'.heapArgs, tup⟩, s'.store, s'.results, by rw [make, hends], ?_, ?_,
      hcopied.denote, ?_⟩
    · rw [frees, hheapArgs]
      exact hcopied.grows
    · rw [Sound, hheapArgs]
      exact hcopied.sound
    · rw [frees, hheapArgs]
      exact hcopied.blocks
  · right
    have hheapArgs : s'.heapArgs = ds := hnot.heapArgs
    have hnodup := List.Nodup.of_append_left hnot.grows.nodup
    have hlive : ∀ a ∈ freesAll s'.store ds, s'.store.Live a := fun a ha =>
      hnot.grows.live (List.mem_append_left _ ha)
    rcases freeAll_iff.mpr ⟨hnodup, hlive⟩ with ⟨h', hfree⟩
    have hdestroy : wp (destroyAll ds) (fun _ t => t.store = h') (fun _ => False) s' :=
      wp_destroyAll hnot.sound hfree rfl
    rcases ends_of_wp hdestroy with ⟨u, t, hends', hstore⟩ | ⟨t, -, hfalse⟩
    · refine ⟨lost, h', s'.results, ?_, hnot.grows.freeAll hfree, hnot.length, hnot.throwing⟩
      rw [make, hends]
      dsimp only
      rw [hheapArgs, hends', Option.map_some, hstore]
    · exact absurd hfalse id

/-- The destructor frees what `frees` says. -/
theorem destroy_spec {msg : DelegateAsyncMsg} (hs : msg.Sound h)
    (hfree : h.freeAll (msg.frees h) = some h') : msg.destroy h = some h' := by
  have hdestroy : wp (destroyAll msg.m_heapMem) (fun _ t => t.store = h') (fun _ => False)
      ⟨h, [], [], [], []⟩ := wp_destroyAll hs hfree rfl
  rcases ends_of_wp hdestroy with ⟨u, t, hends, hstore⟩ | ⟨t, -, hfalse⟩
  · rw [destroy, hends, Option.map_some, hstore]
  · exact absurd hfalse id

end DelegateAsyncMsg

end Spec

end AsyncSqlite
