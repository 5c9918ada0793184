import Mathlib.Data.Finset.Card
import AsyncSqlite.Delegate.HeapArgs
import AsyncSqlite.Lts.Core

/-!
# AsyncSqlite.Delegate.ArgHeap — the arguments of all messages on one heap

Any number of asynchronous calls with the program around them: threads allocate,
write and delete their own blocks, send messages whose arguments they copy from
wherever the arguments point, and the messages are invoked or not and destroyed.
A target function may write to the copies it is given, and hand over a block of
its own by writing it over the pointer of an `Arg**`.

As long as nobody touches what is not his (`OwnOnly`), a message says at its target
what its arguments were when it was sent (`async_args_isolated`), and every block
has exactly one owner: no destructor frees a block twice or too early, and none
is left behind but those of a constructor in which a copy constructor or
`xmake_shared` threw (`arg_heap_balanced`).
-/

namespace AsyncSqlite

/-- A message, and what its arguments were. -/
structure SentMessage (V : Type) where
  msg : DelegateAsyncMsg
  /-- `Invoke` was called -/
  begun : Bool
  sent : List (ArgValue V)
deriving DecidableEq, Repr

/-- The heap with the messages; `mine` and `lost` are a record of who owns what. -/
structure ArgHeap (I V : Type) where
  store : Store (HeapCell V)
  msg : I → Option (SentMessage V)
  /-- the blocks of the program -/
  mine : Finset ℕ
  /-- the blocks that have no owner -/
  lost : Finset ℕ
  /-- the constructors of messages that ended by a throw of a copy constructor or of
  `xmake_shared` -/
  uncaught : ℕ
  /-- a block was used that is not there -/
  faulted : Bool

inductive ArgHeapLabel (I V : Type) where
  | new (x : HeapCell V)
  | write (a : ℕ) (x : HeapCell V)
  | delete (a : ℕ)
  | send (i : I) (args : List HeapArg) (results : AllocResults)
  | begin (i : I)
  /-- the target of the message writes through its arguments -/
  | targetWrite (i : I) (a : ℕ) (x : HeapCell V)
  | release (i : I)

namespace ArgHeap

variable {I V : Type}

def initial : ArgHeap I V where
  store := Store.empty
  msg := fun _ => none
  mine := ∅
  lost := ∅
  uncaught := 0
  faulted := false

def guard : ArgHeapLabel I V → ArgHeap I V → Prop
  | .new _, _ | .write _ _, _ | .delete _, _ => True
  | .send i _ _, s => s.msg i = none
  | .begin i, s => ∃ m ∈ s.msg i, m.begun = false
  | .targetWrite i _ _, s => ∃ m ∈ s.msg i, m.begun = true
  | .release i, s => (s.msg i).isSome = true

variable [DecidableEq I]

/-- `DelegateAsyncMsg(...)`. -/
def send (i : I) (args : List HeapArg) (results : AllocResults) (s : ArgHeap I V) :
    ArgHeap I V :=
  match DelegateAsyncMsg.make s.store results args with
  | none => { s with faulted := true }
  | some (some msg, h, _) =>
    { s with
      store := h
      msg := Function.update s.msg i
        (some ⟨msg, false, args.filterMap (·.denote s.store)⟩) }
  | some (none, h, rest) =>
    { s with
      store := h
      lost := s.lost ∪ (Finset.range h.next).filter fun a => s.store.next ≤ a ∧ h.Live a
      uncaught := s.uncaught + if rest.throwing = results.throwing then 0 else 1 }

/-- A target writes. What the deleters of the message will free from now on is no
longer the program's, and what they no longer free is. -/
def targetWrite (i : I) (a : ℕ) (x : HeapCell V) (s : ArgHeap I V) : ArgHeap I V :=
  match s.msg i, s.store.set a x with
  | some m, some h =>
    { s with
      store := h
      mine := (s.mine ∪ (m.msg.frees s.store).toFinset) \ (m.msg.frees h).toFinset }
  | _, _ => { s with faulted := true }

/-- `~DelegateAsyncMsg`. -/
def release (i : I) (s : ArgHeap I V) : ArgHeap I V :=
  match (s.msg i).bind fun m => m.msg.destroy s.store with
  | none => { s with faulted := true }
  | some h => { s with store := h, msg := Function.update s.msg i none }

def update : ArgHeapLabel I V → ArgHeap I V → ArgHeap I V
  | .new x, s =>
    { s with store := (s.store.alloc x).2, mine := insert s.store.next s.mine }
  | .write a x, s =>
    match s.store.set a x with
    | none => { s with faulted := true }
    | some h => { s with store := h }
  | .delete a, s =>
    match s.store.free a with
    | none => { s with faulted := true }
    | some h => { s with store := h, mine := s.mine.erase a }
  | .send i args results, s => s.send i args results
  | .begin i, s =>
    { s with msg := Function.update s.msg i ((s.msg i).map fun m => { m with begun := true }) }
  | .targetWrite i a x, s => s.targetWrite i a x
  | .release i, s => s.release i

end ArgHeap

open ArgHeap

def argHeapLts (I V : Type) [DecidableEq I] : Lts (ArgHeap I V) (ArgHeapLabel I V) where
  init s := s = initial
  guard := guard
  update := update

namespace ArgHeap

variable {I V : Type}

/-- What may be written over the `Arg*` at `a`, for the deleter to free: nothing,
what was there or a block of the program. -/
def Takes (mine : Finset ℕ) (a : ℕ) (p : Option ℕ) : HeapArgDeleter → Prop
  | .pointer _ => False
  | .pointerPointer m_arg m_inner =>
    m_arg = some a ∧ (p = none ∨ p = m_inner ∨ ∃ b ∈ mine, p = some b)

/-- What the target of `m` may write through its arguments. -/
def MayWrite (s : ArgHeap I V) (m : SentMessage V) (a : ℕ) : HeapCell V → Prop
  | .object _ => a ∈ m.msg.frees s.store ∧ (objectAt s.store a).isSome = true
  | .pointer p => ∃ d ∈ m.msg.m_heapMem, Takes s.mine a p d

/-- Nobody touches what is not his, and no argument dangles when it is copied. -/
def OwnOnly : ArgHeapLabel I V → ArgHeap I V → Prop
  | .write a _, s | .delete a, s => a ∈ s.mine
  | .send _ args _, s => ∀ e ∈ args, (e.denote s.store).isSome = true
  | .targetWrite i a x, s => ∃ m ∈ s.msg i, s.MayWrite m a x
  | _, _ => True

instance (mine : Finset ℕ) (a : ℕ) (p : Option ℕ) : DecidablePred (Takes mine a p)
  | .pointer _ => inferInstanceAs (Decidable False)
  | .pointerPointer _ _ => inferInstanceAs (Decidable (_ ∧ _))

instance (s : ArgHeap I V) (m : SentMessage V) (a : ℕ) (x : HeapCell V) :
    Decidable (s.MayWrite m a x) :=
  match x with
  | .object _ => inferInstanceAs (Decidable (_ ∧ _))
  | .pointer _ => inferInstanceAs (Decidable (∃ d ∈ _, Takes _ _ _ d))

instance (l : ArgHeapLabel I V) (s : ArgHeap I V) : Decidable (OwnOnly l s) :=
  match l with
  | .new _ | .begin _ | .release _ => inferInstanceAs (Decidable True)
  | .write _ _ | .delete _ => inferInstanceAs (Decidable (_ ∈ _))
  | .send _ _ _ => inferInstanceAs (Decidable (∀ e ∈ _, _))
  | .targetWrite _ _ _ => inferInstanceAs (Decidable (∃ m ∈ _, _))

instance [DecidableEq I] (l : ArgHeapLabel I V) (s : ArgHeap I V) :
    Decidable ((argHeapLts I V).guard l s) :=
  match l with
  | .new _ | .write _ _ | .delete _ => inferInstanceAs (Decidable True)
  | .send _ _ _ => inferInstanceAs (Decidable (_ = _))
  | .begin _ | .targetWrite _ _ _ => inferInstanceAs (Decidable (∃ m ∈ _, _))
  | .release _ => inferInstanceAs (Decidable (_ = _))

/-! ## The invariant -/

/-- Who may own a block. -/
inductive BlockOwner (I : Type) where
  | program
  | message (i : I)
  | lost
deriving DecidableEq

/-- The owner of a block has to free it, but for one that is lost. -/
def Owns (s : ArgHeap I V) : BlockOwner I → ℕ → Prop
  | .program, a => a ∈ s.mine
  | .message i, a => ∃ m, s.msg i = some m ∧ a ∈ m.msg.frees s.store
  | .lost, a => a ∈ s.lost

/-- A message that is intact on the heap `h`. -/
structure Intact (h : Store (HeapCell V)) (m : SentMessage V) : Prop where
  sound : m.msg.Sound h
  nodup : (m.msg.frees h).Nodup
  sent : m.begun = false → denotes h m.msg.m_args (m.sent.map (·.arrives)) ∧
    ∀ e ∈ m.msg.m_args, ∀ a ∈ e.blocks h, a ∈ m.msg.frees h

structure ArgHeapInv (s : ArgHeap I V) : Prop where
  faulted : s.faulted = false
  intact : ∀ i m, s.msg i = some m → Intact s.store m
  live : ∀ a, s.store.Live a ↔ ∃ o, s.Owns o a
  unique : ∀ a o o', s.Owns o a → s.Owns o' a → o = o'
  lost : s.lost.card ≤ 2 * s.uncaught

variable {s s' : ArgHeap I V} {h h' : Store (HeapCell V)} {m : SentMessage V} {i j : I} {a : ℕ}
  {l : List ℕ}

/-- What is written elsewhere is nothing to the message. -/
theorem Intact.congr (hm : Intact h m) (heq : ∀ a ∈ m.msg.frees h, h'.cell a = h.cell a) :
    m.msg.frees h' = m.msg.frees h ∧ Intact h' m := by
  have hfrees : m.msg.frees h' = m.msg.frees h := freesAll_congr heq
  refine ⟨hfrees, ?_, ?_, ?_⟩
  · intro d hd
    refine (hm.sound d hd).congr ?_
    intro a ha
    exact heq a (mem_freesAll.mpr ⟨d, hd, ha⟩)
  · rw [hfrees]
    exact hm.nodup
  · intro hb
    rcases hm.sent hb with ⟨hdenotes, hblocks⟩
    have hkeep : ∀ e ∈ m.msg.m_args, ∀ a ∈ e.blocks h, h'.cell a = h.cell a := fun e he a ha =>
      heq a (hblocks e he a ha)
    refine ⟨denotes_congr hdenotes hkeep, ?_⟩
    intro e he a ha
    rw [HeapArg.blocks_congr (hkeep e he)] at ha
    rw [hfrees]
    exact hblocks e he a ha

namespace ArgHeapInv

theorem live_of_owns (hinv : ArgHeapInv s) {o : BlockOwner I} (ho : s.Owns o a) :
    s.store.Live a :=
  (hinv.live a).mpr ⟨o, ho⟩

/-- A message does not notice a change of the blocks of others. -/
theorem keeps (hinv : ArgHeapInv s) (hm : s.msg i = some m)
    (heq : ∀ a, s.Owns (.message i) a → h'.cell a = s.store.cell a) :
    m.msg.frees h' = m.msg.frees s.store ∧ Intact h' m := by
  apply (hinv.intact i m hm).congr
  intro a ha
  exact heq a ⟨m, hm, ha⟩

/-- What the messages own is what it was, if their blocks were left alone. -/
theorem messages (hinv : ArgHeapInv s) (hmsg : s'.msg = s.msg)
    (heq : ∀ i a, s.Owns (.message i) a → s'.store.cell a = s.store.cell a) :
    (∀ i m, s'.msg i = some m → Intact s'.store m) ∧
      ∀ i a, s'.Owns (.message i) a ↔ s.Owns (.message i) a := by
  constructor
  · intro i m hm
    rw [hmsg] at hm
    exact (hinv.keeps hm (heq i)).2
  · intro i a
    unfold Owns
    rw [hmsg]
    constructor
    · rintro ⟨m, hm, ha⟩
      rw [(hinv.keeps hm (heq i)).1] at ha
      exact ⟨m, hm, ha⟩
    · rintro ⟨m, hm, ha⟩
      refine ⟨m, hm, ?_⟩
      rw [(hinv.keeps hm (heq i)).1]
      exact ha

theorem start : ArgHeapInv (initial : ArgHeap I V) where
  faulted := rfl
  intact i m hm := by cases hm
  live a := by
    constructor
    · intro hl
      cases hl
    · rintro ⟨o, ho⟩
      cases o with
      | program => exact absurd ho (Finset.notMem_empty a)
      | message i =>
        rcases ho with ⟨m, hm, -⟩
        cases hm
      | lost => exact absurd ho (Finset.notMem_empty a)
  unique a o o' ho _ := by
    cases o with
    | program => exact absurd ho (Finset.notMem_empty a)
    | message i =>
      rcases ho with ⟨m, hm, -⟩
      cases hm
    | lost => exact absurd ho (Finset.notMem_empty a)
  lost := by simp [initial]

/-- New blocks go to one owner. -/
theorem grow (hinv : ArgHeapInv s) (hg : s.store.Grows s'.store l) {o : BlockOwner I}
    (howns : ∀ o' a, s'.Owns o' a ↔ s.Owns o' a ∨ o' = o ∧ a ∈ l)
    (hfaulted : s'.faulted = s.faulted)
    (hintact : ∀ i m, s'.msg i = some m → Intact s'.store m)
    (hlost : s'.lost.card ≤ 2 * s'.uncaught) : ArgHeapInv s' where
  faulted := hfaulted.trans hinv.faulted
  intact := hintact
  live a := by
    constructor
    · intro hl
      by_cases hlt : a < s.store.next
      · have hold : s.store.Live a := by
          rwa [Store.Live, hg.old a hlt] at hl
        rcases (hinv.live a).mp hold with ⟨o', ho'⟩
        exact ⟨o', (howns o' a).mpr (Or.inl ho')⟩
      · exact ⟨o, (howns o a).mpr (Or.inr ⟨rfl, (hg.new a).mpr ⟨by omega, hl⟩⟩)⟩
    · rintro ⟨o', ho'⟩
      rcases (howns o' a).mp ho' with hold | ⟨-, hmem⟩
      · have hl := hinv.live_of_owns hold
        rwa [Store.Live, hg.cell_of_live hl]
      · exact hg.live hmem
  unique a o₁ o₂ h₁ h₂ := by
    -- a new block was nobody's
    have hnew : ∀ o', s.Owns o' a → a ∉ l := by
      intro o' ho' hmem
      have hlt := (hinv.live_of_owns ho').lt_next
      have hge := hg.ge hmem
      omega
    rcases (howns o₁ a).mp h₁ with hold₁ | ⟨rfl, hmem₁⟩
    · rcases (howns o₂ a).mp h₂ with hold₂ | ⟨-, hmem₂⟩
      · exact hinv.unique a o₁ o₂ hold₁ hold₂
      · exact absurd hmem₂ (hnew o₁ hold₁)
    · rcases (howns o₂ a).mp h₂ with hold₂ | ⟨rfl, -⟩
      · exact absurd hmem₁ (hnew o₂ hold₂)
      · rfl
  lost := hlost

/-- The blocks of the messages are where they were. -/
theorem cell_of_grows (hinv : ArgHeapInv s) (hg : s.store.Grows h' l) (i : I) (a : ℕ)
    (ho : s.Owns (.message i) a) : h'.cell a = s.store.cell a :=
  hg.cell_of_live (hinv.live_of_owns ho)

/-- The blocks of the program are not those of a message. -/
theorem ne_of_mine (hinv : ArgHeapInv s) (ha : a ∈ s.mine) {b : ℕ}
    (ho : s.Owns (.message i) b) : b ≠ a := by
  rintro rfl
  have heq := hinv.unique b .program (.message i) ha ho
  cases heq

/-- Blocks that are freed are no longer anybody's. -/
theorem shrink (hinv : ArgHeapInv s) (hfree : s.store.freeAll l = some s'.store)
    (howns : ∀ o a, s'.Owns o a ↔ s.Owns o a ∧ a ∉ l) (hfaulted : s'.faulted = s.faulted)
    (hintact : ∀ i m, s'.msg i = some m → Intact s'.store m)
    (hlost : s'.lost.card ≤ 2 * s'.uncaught) : ArgHeapInv s' where
  faulted := hfaulted.trans hinv.faulted
  intact := hintact
  live a := by
    have hcell := (Store.freeAll_spec hfree).2.2.2 a
    by_cases hmem : a ∈ l
    · rw [Store.Live, hcell, if_pos hmem]
      constructor
      · intro hl
        cases hl
      · rintro ⟨o, ho⟩
        exact absurd hmem ((howns o a).mp ho).2
    · rw [Store.Live, hcell, if_neg hmem, ← Store.Live, hinv.live a]
      apply exists_congr
      intro o
      rw [howns o a]
      exact ⟨fun ho => ⟨ho, hmem⟩, fun ho => ho.1⟩
  unique a o o' ho ho' := hinv.unique a o o' ((howns o a).mp ho).1 ((howns o' a).mp ho').1
  lost := hlost

variable [DecidableEq I]

theorem new (hinv : ArgHeapInv s) (x : HeapCell V) : ArgHeapInv (update (.new x) s) := by
  have hg := Store.Grows.alloc s.store x
  have hfixed : (update (.new x) s).msg = s.msg := rfl
  rcases hinv.messages hfixed (hinv.cell_of_grows hg) with ⟨hintact, hmsg⟩
  refine hinv.grow (o := .program) hg ?_ rfl hintact hinv.lost
  intro o a
  cases o with
  | program =>
    change a ∈ insert s.store.next s.mine ↔ _
    rw [Finset.mem_insert, List.mem_singleton]
    simp [Owns, or_comm]
  | message i => simp [hmsg i a]
  | lost => simp [Owns, update]

theorem write (hinv : ArgHeapInv s) (ha : a ∈ s.mine) (x : HeapCell V) :
    ArgHeapInv (update (.write a x) s) := by
  rcases Store.set_of_live (hinv.live_of_owns (o := .program) ha) x with ⟨h, hset⟩
  have hcell := (Store.set_spec hset).2.2
  have hupdate : update (.write a x) s = { s with store := h } := by
    simp only [update, hset]
  rw [hupdate]
  have hsame : ∀ i b, s.Owns (.message i) b → h.cell b = s.store.cell b := by
    intro i b ho
    rw [hcell, Function.update_of_ne (hinv.ne_of_mine ha ho)]
  have hfixed : ({ s with store := h } : ArgHeap I V).msg = s.msg := rfl
  rcases hinv.messages hfixed hsame with ⟨hintact, hmsg⟩
  have howns : ∀ o b, Owns { s with store := h } o b ↔ s.Owns o b := by
    intro o b
    cases o with
    | program => exact Iff.rfl
    | message i => exact hmsg i b
    | lost => exact Iff.rfl
  exact
    { faulted := hinv.faulted
      intact := hintact
      live := by
        intro b
        rw [Store.live_set hset, hinv.live b]
        exact exists_congr fun o => (howns o b).symm
      unique := by
        intro b o o' ho ho'
        exact hinv.unique b o o' ((howns o b).mp ho) ((howns o' b).mp ho')
      lost := hinv.lost }

theorem delete (hinv : ArgHeapInv s) (ha : a ∈ s.mine) : ArgHeapInv (update (.delete a) s) := by
  rcases Store.free_of_live (hinv.live_of_owns (o := .program) ha) with ⟨h, hfree⟩
  have hcell := (Store.free_spec hfree).2.2
  have hupdate : update (.delete a) s = { s with store := h, mine := s.mine.erase a } := by
    simp only [update, hfree]
  rw [hupdate]
  have hsame : ∀ i b, s.Owns (.message i) b → h.cell b = s.store.cell b := by
    intro i b ho
    rw [hcell, Function.update_of_ne (hinv.ne_of_mine ha ho)]
  have hfixed : ({ s with store := h, mine := s.mine.erase a } : ArgHeap I V).msg = s.msg := rfl
  rcases hinv.messages hfixed hsame with ⟨hintact, hmsg⟩
  refine hinv.shrink (l := [a]) (by simp [Store.freeAll, hfree]) ?_ rfl hintact hinv.lost
  intro o b
  rw [List.mem_singleton]
  cases o with
  | program =>
    change b ∈ s.mine.erase a ↔ b ∈ s.mine ∧ b ≠ a
    rw [Finset.mem_erase, and_comm]
  | message i =>
    rw [hmsg i b]
    exact ⟨fun ho => ⟨ho, hinv.ne_of_mine ha ho⟩, fun ho => ho.1⟩
  | lost =>
    constructor
    · intro ho
      refine ⟨ho, ?_⟩
      rintro rfl
      have heq := hinv.unique b .program .lost ha ho
      cases heq
    · exact fun ho => ho.1

/-- What was found at the arguments. -/
theorem denotes_filterMap {args : List HeapArg}
    (hargs : ∀ e ∈ args, (e.denote h).isSome = true) :
    denotes h args (args.filterMap (·.denote h)) := by
  induction args with
  | nil => exact List.Forall₂.nil
  | cons e args ih =>
    rcases Option.isSome_iff_exists.mp (hargs e (List.mem_cons_self ..)) with ⟨x, hx⟩
    rw [List.filterMap_cons_some hx]
    exact List.Forall₂.cons hx (ih fun e' he' => hargs e' (List.mem_cons_of_mem _ he'))

theorem send (hinv : ArgHeapInv s) (hi : s.msg i = none) {args : List HeapArg}
    (hargs : ∀ e ∈ args, (e.denote s.store).isSome = true) (results : AllocResults) :
    ArgHeapInv (s.send i args results) := by
  have hxs := denotes_filterMap hargs
  rcases DelegateAsyncMsg.make_spec results hxs with
    ⟨msg, h, rest, hmake, hg, hsound, hdenote, hblocks⟩ |
    ⟨lost, h, rest, hmake, hg, hlen, hthrowing⟩
  · have hsend : s.send i args results =
        { s with
          store := h
          msg := Function.update s.msg i
            (some ⟨msg, false, args.filterMap (·.denote s.store)⟩) } := by
      simp only [ArgHeap.send, hmake]
    rw [hsend]
    have hkeeps := fun j m (hm : s.msg j = some m) =>
      hinv.keeps hm (hinv.cell_of_grows hg j)
    refine hinv.grow (o := .message i) hg ?_ rfl ?_ hinv.lost
    · intro o a
      cases o with
      | program => simp [Owns]
      | message j =>
        by_cases hj : j = i
        · subst hj
          simp [Owns, hi]
        · simp only [Owns, Function.update_of_ne hj, BlockOwner.message.injEq, hj, false_and,
            or_false]
          apply exists_congr
          intro m
          apply and_congr_right
          intro hm
          rw [(hkeeps j m hm).1]
      | lost => simp [Owns]
    · intro j m hm
      by_cases hj : j = i
      · subst hj
        simp only [Function.update_self, Option.some.injEq] at hm
        subst hm
        exact ⟨hsound, hg.nodup, fun _ => ⟨hdenote, hblocks⟩⟩
      · simp only [Function.update_of_ne hj] at hm
        exact (hkeeps j m hm).2
  · have hsend : s.send i args results =
        { s with
          store := h
          lost := s.lost ∪ (Finset.range h.next).filter fun a => s.store.next ≤ a ∧ h.Live a
          uncaught := s.uncaught + if rest.throwing = results.throwing then 0 else 1 } := by
      simp only [ArgHeap.send, hmake]
    rw [hsend]
    have hnew : ((Finset.range h.next).filter fun a => s.store.next ≤ a ∧ h.Live a) =
        lost.toFinset := by
      ext a
      rw [Finset.mem_filter, Finset.mem_range, List.mem_toFinset, hg.new a]
      exact ⟨fun ha => ha.2, fun ha => ⟨ha.2.lt_next, ha⟩⟩
    rw [hnew]
    have hfixed : ({ s with
      store := h
      lost := s.lost ∪ lost.toFinset
      uncaught := s.uncaught + if rest.throwing = results.throwing then 0 else 1 } :
        ArgHeap I V).msg = s.msg := rfl
    rcases hinv.messages hfixed (hinv.cell_of_grows hg) with ⟨hintact, hmsg⟩
    refine hinv.grow (o := .lost) hg ?_ rfl hintact ?_
    · intro o a
      cases o with
      | program => simp [Owns]
      | message j =>
        rw [hmsg j a]
        simp
      | lost => simp [Owns]
    · -- two blocks at most are lost, and none unless a throw was used up
      have hcard := Finset.card_union_le s.lost lost.toFinset
      have hlist := List.toFinset_card_le lost
      have hbound := hinv.lost
      by_cases hc : rest.throwing = results.throwing
      · rw [hthrowing hc] at hcard hlist ⊢
        simp only [List.toFinset_nil, Finset.union_empty, if_pos hc]
        omega
      · simp only [if_neg hc]
        omega

theorem begin (hinv : ArgHeapInv s) (i : I) : ArgHeapInv (update (.begin i) s) := by
  have hbegun : ∀ j m, (update (.begin i) s).msg j = some m →
      ∃ m₀, s.msg j = some m₀ ∧ m₀.msg = m.msg ∧ (m₀ = m ∨ m.begun = true) := by
    intro j m hm
    simp only [update] at hm
    by_cases hj : j = i
    · subst hj
      rw [Function.update_self, Option.map_eq_some_iff] at hm
      rcases hm with ⟨m₀, hm₀, rfl⟩
      exact ⟨m₀, hm₀, rfl, Or.inr rfl⟩
    · rw [Function.update_of_ne hj] at hm
      exact ⟨m, hm, rfl, Or.inl rfl⟩
  have howns : ∀ o a, (update (.begin i) s).Owns o a ↔ s.Owns o a := by
    intro o a
    cases o with
    | program => exact Iff.rfl
    | message j =>
      constructor
      · rintro ⟨m, hm, ha⟩
        rcases hbegun j m hm with ⟨m₀, hm₀, hmsg, -⟩
        rw [← hmsg] at ha
        exact ⟨m₀, hm₀, ha⟩
      · rintro ⟨m, hm, ha⟩
        by_cases hj : j = i
        · subst hj
          exact ⟨{ m with begun := true }, by simp [update, hm], ha⟩
        · exact ⟨m, by simp [update, hj, hm], ha⟩
    | lost => exact Iff.rfl
  exact
    { faulted := hinv.faulted
      intact := by
        intro j m hm
        rcases hbegun j m hm with ⟨m₀, hm₀, hmsg, hcases⟩
        have hold := hinv.intact j m₀ hm₀
        rcases hcases with rfl | hb
        · exact hold
        · refine ⟨?_, ?_, fun hfalse => absurd (hb.symm.trans hfalse) (by decide)⟩
          · rw [← hmsg]
            exact hold.sound
          · rw [← hmsg]
            exact hold.nodup
      live := by
        intro a
        rw [exists_congr fun o => howns o a]
        exact hinv.live a
      unique := by
        intro a o o' ho ho'
        exact hinv.unique a o o' ((howns o a).mp ho) ((howns o' a).mp ho')
      lost := hinv.lost }

theorem release (hinv : ArgHeapInv s) (hi : s.msg i = some m) : ArgHeapInv (s.release i) := by
  have hintact := hinv.intact i m hi
  have hlive : ∀ a ∈ m.msg.frees s.store, s.store.Live a := fun a ha =>
    hinv.live_of_owns (o := .message i) ⟨m, hi, ha⟩
  rcases Store.freeAll_iff.mpr ⟨hintact.nodup, hlive⟩ with ⟨h, hfree⟩
  have hrelease : s.release i = { s with store := h, msg := Function.update s.msg i none } := by
    simp only [ArgHeap.release, hi, Option.bind_some,
      DelegateAsyncMsg.destroy_spec hintact.sound hfree]
  rw [hrelease]
  have hsame : ∀ j a, j ≠ i → s.Owns (.message j) a → h.cell a = s.store.cell a := by
    intro j a hj ho
    have hnot : a ∉ m.msg.frees s.store := by
      intro hmem
      have heq := hinv.unique a _ (.message i) ho ⟨m, hi, hmem⟩
      exact hj (BlockOwner.message.inj heq)
    rw [(Store.freeAll_spec hfree).2.2.2 a, if_neg hnot]
  have hkeeps := fun j m' (hj : j ≠ i) (hm : s.msg j = some m') =>
    hinv.keeps hm fun a ho => hsame j a hj ho
  have hother : ∀ o a, o ≠ .message i → s.Owns o a → a ∉ m.msg.frees s.store := by
    intro o a hne ho hmem
    exact hne (hinv.unique a o (.message i) ho ⟨m, hi, hmem⟩)
  refine hinv.shrink hfree ?_ rfl ?_ hinv.lost
  · intro o a
    cases o with
    | program => exact ⟨fun ho => ⟨ho, hother .program a (by simp) ho⟩, fun ho => ho.1⟩
    | message j =>
      by_cases hj : j = i
      · subst hj
        constructor
        · rintro ⟨m', hm', -⟩
          simp at hm'
        · rintro ⟨⟨m', hm', ha⟩, hnot⟩
          rw [hi, Option.some.injEq] at hm'
          subst hm'
          exact absurd ha hnot
      · have hmsg : Owns { s with store := h, msg := Function.update s.msg i none }
            (.message j) a ↔ s.Owns (.message j) a := by
          simp only [Owns, Function.update_of_ne hj]
          apply exists_congr
          intro m'
          apply and_congr_right
          intro hm'
          rw [(hkeeps j m' hj hm').1]
        rw [hmsg]
        exact ⟨fun ho => ⟨ho, hother _ a (by simpa using hj) ho⟩, fun ho => ho.1⟩
    | lost => exact ⟨fun ho => ⟨ho, hother .lost a (by simp) ho⟩, fun ho => ho.1⟩
  · intro j m' hm'
    by_cases hj : j = i
    · subst hj
      simp at hm'
    · simp only [Function.update_of_ne hj] at hm'
      exact (hkeeps j m' hj hm').2

/-- A target writes to a block of its message. What the deleters then free is
theirs or was the program's. -/
theorem handOver (hinv : ArgHeapInv s) (hi : s.msg i = some m) (hb : m.begun = true)
    {x : HeapCell V} (hset : s.store.set a x = some h) (ha : a ∈ m.msg.frees s.store)
    (hsound : m.msg.Sound h) (hnodup : (m.msg.frees h).Nodup)
    (hsub : ∀ b ∈ m.msg.frees h, b ∈ m.msg.frees s.store ∨ b ∈ s.mine) :
    ArgHeapInv (s.targetWrite i a x) := by
  have hwrite : s.targetWrite i a x =
      { s with
        store := h
        mine := (s.mine ∪ (m.msg.frees s.store).toFinset) \ (m.msg.frees h).toFinset } := by
    simp only [ArgHeap.targetWrite, hi, hset]
  rw [hwrite]
  have hsame : ∀ j b, j ≠ i → s.Owns (.message j) b → h.cell b = s.store.cell b := by
    intro j b hj ho
    have hne : b ≠ a := by
      rintro rfl
      have heq := hinv.unique b _ (.message i) ho ⟨m, hi, ha⟩
      exact hj (BlockOwner.message.inj heq)
    rw [(Store.set_spec hset).2.2, Function.update_of_ne hne]
  have hkeeps := fun j m' (hj : j ≠ i) (hm : s.msg j = some m') =>
    hinv.keeps hm fun b ho => hsame j b hj ho
  generalize hs' : ({ s with
    store := h
    mine := (s.mine ∪ (m.msg.frees s.store).toFinset) \ (m.msg.frees h).toFinset } :
      ArgHeap I V) = s'
  have hmine : ∀ b, s'.Owns .program b ↔
      (s.Owns .program b ∨ s.Owns (.message i) b) ∧ b ∉ m.msg.frees h := by
    intro b
    subst hs'
    simp [Owns, hi]
  have hself : ∀ b, s'.Owns (.message i) b ↔ b ∈ m.msg.frees h := by
    intro b
    subst hs'
    simp [Owns, hi]
  have hother : ∀ o b, o ≠ .program → o ≠ .message i → (s'.Owns o b ↔ s.Owns o b) := by
    intro o b hp hm
    subst hs'
    cases o with
    | program => exact absurd rfl hp
    | message j =>
      have hj : j ≠ i := fun heq => hm (by rw [heq])
      simp only [Owns]
      apply exists_congr
      intro m'
      apply and_congr_right
      intro hm'
      rw [(hkeeps j m' hj hm').1]
    | lost => exact Iff.rfl
  -- the program and the message share out what they had
  have hpair : ∀ o b, o = .program ∨ o = .message i → s'.Owns o b →
      s.Owns .program b ∨ s.Owns (.message i) b := by
    rintro o b (rfl | rfl) ho
    · exact ((hmine b).mp ho).1
    · rcases hsub b ((hself b).mp ho) with hmem | hmem
      · exact Or.inr ⟨m, hi, hmem⟩
      · exact Or.inl hmem
  have hcross : ∀ o o' b, o = .program ∨ o = .message i → ¬ (o' = .program ∨ o' = .message i) →
      s'.Owns o b → ¬ s'.Owns o' b := by
    intro o o' b hin hout ho ho'
    have hold' := (hother o' b (fun heq => hout (Or.inl heq)) fun heq => hout (Or.inr heq)).mp ho'
    apply hout
    rcases hpair o b hin ho with hold | hold
    · exact Or.inl (hinv.unique b _ _ hold' hold)
    · exact Or.inr (hinv.unique b _ _ hold' hold)
  have hstore : s'.store = h := by rw [← hs']
  exact
    { faulted := by
        rw [← hs']
        exact hinv.faulted
      intact := by
        intro j m' hm'
        subst hs'
        by_cases hj : j = i
        · subst hj
          rw [hi, Option.some.injEq] at hm'
          subst hm'
          exact ⟨hsound, hnodup, fun hfalse => absurd (hb.symm.trans hfalse) (by decide)⟩
        · exact (hkeeps j m' hj hm').2
      live := by
        intro b
        rw [hstore, Store.live_set hset, hinv.live b]
        constructor
        · rintro ⟨o, ho⟩
          by_cases hp : o = .program ∨ o = .message i
          · have hold : s.Owns .program b ∨ s.Owns (.message i) b := by
              rcases hp with rfl | rfl
              · exact Or.inl ho
              · exact Or.inr ho
            by_cases hmem : b ∈ m.msg.frees h
            · exact ⟨.message i, (hself b).mpr hmem⟩
            · exact ⟨.program, (hmine b).mpr ⟨hold, hmem⟩⟩
          · rw [not_or] at hp
            exact ⟨o, (hother o b hp.1 hp.2).mpr ho⟩
        · rintro ⟨o, ho⟩
          by_cases hp : o = .program ∨ o = .message i
          · rcases hpair o b hp ho with hold | hold
            · exact ⟨_, hold⟩
            · exact ⟨_, hold⟩
          · rw [not_or] at hp
            exact ⟨o, (hother o b hp.1 hp.2).mp ho⟩
      unique := by
        intro b o o' ho ho'
        by_cases hin : o = .program ∨ o = .message i
        · by_cases hin' : o' = .program ∨ o' = .message i
          · rcases hin with rfl | rfl
            · rcases hin' with rfl | rfl
              · rfl
              · exact absurd ((hself b).mp ho') ((hmine b).mp ho).2
            · rcases hin' with rfl | rfl
              · exact absurd ((hself b).mp ho) ((hmine b).mp ho').2
              · rfl
          · exact absurd ho' (hcross o o' b hin hin' ho)
        · by_cases hin' : o' = .program ∨ o' = .message i
          · exact absurd ho (hcross o' o b hin' hin ho')
          · rw [not_or] at hin hin'
            exact hinv.unique b o o' ((hother o b hin.1 hin.2).mp ho)
              ((hother o' b hin'.1 hin'.2).mp ho')
      lost := by
        rw [← hs']
        exact hinv.lost }

omit [DecidableEq I] in
/-- What is written over an object leaves the pointers alone. -/
theorem pointerAt_set_object {v : V} (ho : (objectAt h a).isSome = true)
    (hset : h.set a (.object v) = some h') (b : ℕ) : pointerAt h' b = pointerAt h b := by
  have hcell := (Store.set_spec hset).2.2
  by_cases hb : b = a
  · subst hb
    rcases Option.isSome_iff_exists.mp ho with ⟨w, hw⟩
    simp [pointerAt, hcell, cell_of_objectAt hw]
  · apply pointerAt_congr
    rw [hcell, Function.update_of_ne hb]

omit [DecidableEq I] in
/-- Deleters look at the pointers only. -/
theorem frees_of_pointerAt (heq : ∀ b, pointerAt h' b = pointerAt h b)
    (msg : DelegateAsyncMsg) : msg.frees h' = msg.frees h ∧ (msg.Sound h → msg.Sound h') := by
  constructor
  · unfold DelegateAsyncMsg.frees freesAll
    apply List.flatMap_congr
    intro d hd
    cases d with
    | pointer m_arg => rfl
    | pointerPointer m_arg m_inner =>
      have hfun : pointerAt h' = pointerAt h := funext heq
      simp only [HeapArgDeleter.frees, overwritten, hfun]
  · intro hs d hd
    have hd' := hs d hd
    cases d with
    | pointer m_arg => trivial
    | pointerPointer m_arg m_inner =>
      intro b hb
      rw [heq b]
      exact hd' b hb

omit [DecidableEq I] in
/-- A pointer that is written over the one of an `Arg**` is freed with it. -/
theorem frees_set_pointer {ds : List HeapArgDeleter} {mine : Finset ℕ} {p : Option ℕ}
    {d : HeapArgDeleter} (hd : d ∈ ds) (htakes : Takes mine a p d)
    (hnodup : (freesAll h ds).Nodup) (hapart : ∀ b ∈ freesAll h ds, b ∉ mine)
    (hset : h.set a (.pointer p) = some h') :
    a ∈ freesAll h ds ∧ (freesAll h' ds).Nodup ∧
      ∀ b ∈ freesAll h' ds, b ∈ freesAll h ds ∨ b ∈ mine := by
  cases d with
  | pointer m_arg => exact absurd htakes id
  | pointerPointer m_arg m_inner =>
    rcases htakes with ⟨rfl, hp⟩
    have hcell := (Store.set_spec hset).2.2
    have hmem : a ∈ freesAll h ds :=
      mem_freesAll.mpr ⟨_, hd, by simp [HeapArgDeleter.frees]⟩
    rcases List.append_of_mem hd with ⟨ds₁, ds₂, rfl⟩
    have hsplit : ∀ g : Store (HeapCell V),
        freesAll g (ds₁ ++ .pointerPointer (some a) m_inner :: ds₂) =
          freesAll g ds₁ ++ ((overwritten g (some a) m_inner).toList ++
            (m_inner.toList ++ [a]) ++ freesAll g ds₂) := by
      intro g
      simp [freesAll, HeapArgDeleter.frees]
    rw [hsplit] at hnodup hmem hapart ⊢
    rw [hsplit]
    -- the other deleters do not look at `a`
    have hrest : (freesAll h ds₁ ++ (m_inner.toList ++ [a] ++ freesAll h ds₂)).Nodup := by
      refine List.Nodup.sublist ?_ hnodup
      exact (List.Sublist.refl _).append ((List.sublist_append_right _ _).append (.refl _))
    have hsame : ∀ ds', (∀ b ∈ freesAll h ds', b ≠ a) → freesAll h' ds' = freesAll h ds' := by
      intro ds' hne
      apply freesAll_congr
      intro b hb
      rw [hcell, Function.update_of_ne (hne b hb)]
    have hfirst : freesAll h' ds₁ = freesAll h ds₁ := by
      apply hsame
      rintro b hb rfl
      exact List.disjoint_of_nodup_append hrest hb (by simp)
    have hsecond : freesAll h' ds₂ = freesAll h ds₂ := by
      apply hsame
      rintro b hb rfl
      have htail := List.Nodup.of_append_right hrest
      exact List.disjoint_of_nodup_append htail (by simp) hb
    have hpointer : pointerAt h' a = some p := by
      simp [pointerAt, hcell]
    have hover : overwritten h' (some a) m_inner = none ∨
        ∃ b ∈ mine, overwritten h' (some a) m_inner = some b := by
      simp only [overwritten, Option.bind_some, hpointer]
      by_cases hne : p ≠ m_inner
      · rw [if_pos hne]
        rcases hp with hp | hp | hp
        · exact Or.inl hp
        · exact absurd hp hne
        · exact Or.inr hp
      · rw [if_neg hne]
        exact Or.inl rfl
    rw [hfirst, hsecond]
    refine ⟨hmem, ?_, ?_⟩
    · rcases hover with hnone | ⟨b, hb, hsome⟩
      · rw [hnone]
        exact hrest
      · rw [hsome]
        change (freesAll h ds₁ ++ b :: (m_inner.toList ++ [a] ++ freesAll h ds₂)).Nodup
        rw [List.nodup_middle, List.nodup_cons]
        refine ⟨?_, hrest⟩
        intro hin
        refine hapart b ?_ hb
        simp only [List.mem_append] at hin ⊢
        tauto
    · intro b hb
      rcases hover with hnone | ⟨c, hc, hsome⟩
      · rw [hnone] at hb
        simp only [Option.toList_none, List.nil_append, List.mem_append] at hb
        simp only [List.mem_append]
        tauto
      · rw [hsome] at hb
        simp only [Option.toList_some, List.mem_append, List.mem_singleton] at hb
        simp only [List.mem_append, List.mem_singleton]
        by_cases hbc : b = c
        · rw [hbc]
          exact Or.inr hc
        · tauto

theorem targetWrite (hinv : ArgHeapInv s) (hi : s.msg i = some m) (hb : m.begun = true)
    {x : HeapCell V} (hmay : s.MayWrite m a x) : ArgHeapInv (s.targetWrite i a x) := by
  have hintact := hinv.intact i m hi
  cases x with
  | object v =>
    rcases hmay with ⟨ha, ho⟩
    rcases Store.set_of_live (hinv.live_of_owns (o := .message i) ⟨m, hi, ha⟩) (.object v) with
      ⟨h, hset⟩
    rcases frees_of_pointerAt (pointerAt_set_object ho hset) m.msg with ⟨hfrees, hsound⟩
    refine hinv.handOver hi hb hset ha (hsound hintact.sound) ?_ ?_
    · rw [hfrees]
      exact hintact.nodup
    · rw [hfrees]
      exact fun b hb' => Or.inl hb'
  | pointer p =>
    rcases hmay with ⟨d, hd, htakes⟩
    have hlive : s.store.Live a := by
      cases d with
      | pointer m_arg => exact absurd htakes id
      | pointerPointer m_arg m_inner =>
        rcases hintact.sound _ hd a htakes.1 with ⟨q, hq⟩
        exact Store.live_of_cell (cell_of_pointerAt hq)
    rcases Store.set_of_live hlive (.pointer p) with ⟨h, hset⟩
    have hapart : ∀ b ∈ freesAll s.store m.msg.m_heapMem, b ∉ s.mine := by
      intro b hmem hmine
      have heq := hinv.unique b (.message i) .program ⟨m, hi, hmem⟩ hmine
      cases heq
    rcases frees_set_pointer hd htakes hintact.nodup hapart hset with ⟨ha, hnodup, hsub⟩
    refine hinv.handOver hi hb hset ha ?_ hnodup hsub
    have hcell := (Store.set_spec hset).2.2
    intro d' hd'
    have hold := hintact.sound d' hd'
    cases d' with
    | pointer m_arg => trivial
    | pointerPointer m_arg m_inner =>
      intro b hb'
      by_cases hba : b = a
      · exact ⟨p, by simp [pointerAt, hcell, hba]⟩
      · have hsame : pointerAt h b = pointerAt s.store b := by
          apply pointerAt_congr
          rw [hcell, Function.update_of_ne hba]
        rw [hsame]
        exact hold b hb'

end ArgHeapInv

variable [DecidableEq I]

theorem inv_of_reachable (hr : (argHeapLts I V).ReachableWhen OwnOnly s) : ArgHeapInv s := by
  refine hr.induct (P := ArgHeapInv) ?_ ?_
  · rintro s rfl
    exact ArgHeapInv.start
  · intro l s _ hg hok hinv
    cases l with
    | new x => exact hinv.new x
    | write a x => exact hinv.write hok x
    | delete a => exact hinv.delete hok
    | send i args results => exact hinv.send hg hok results
    | begin i => exact hinv.begin i
    | targetWrite i a x =>
      rcases hg with ⟨m, hm, hb⟩
      rcases hok with ⟨m', hm', hmay⟩
      have heq : m' = m := Option.some.inj (hm'.symm.trans hm)
      subst heq
      exact hinv.targetWrite hm hb hmay
    | release i =>
      rcases Option.isSome_iff_exists.mp hg with ⟨m, hm⟩
      exact hinv.release hm

end ArgHeap

variable {I V : Type} [DecidableEq I] {s : ArgHeap I V}

/-- Until its target starts, the copies of a message say what the arguments were
when it was sent, whatever was done to these since. -/
theorem async_args_isolated (hr : (argHeapLts I V).ReachableWhen OwnOnly s) {i : I}
    {m : SentMessage V} (hm : s.msg i = some m) (hb : m.begun = false) :
    denotes s.store m.msg.m_args (m.sent.map (·.arrives)) :=
  (((inv_of_reachable hr).intact i m hm).sent hb).1

/-- The caller writes to its object while the message is on its way. -/
theorem async_args_isolated_run : ∃ (s : ArgHeap Unit ℕ) (m : SentMessage ℕ),
    m.sent = [.pointerPointer (some (some 7)), .reference 7] ∧ objectAt s.store 0 = some 9 ∧
      denotes s.store m.msg.m_args (m.sent.map (·.arrives)) := by
  have hrun := Lts.execWhen_reachable (argHeapLts Unit ℕ) OwnOnly
    (show (argHeapLts Unit ℕ).init initial from rfl)
    [.new (.object 7), .new (.pointer (some 0)),
      .send () [.pointerPointer (some 1), .reference 0] ⟨[], [], []⟩, .write 0 (.object 9)]
    (fun s => objectAt s.store 0 = some 9 && (s.msg ()).any fun m =>
      m.sent = [.pointerPointer (some (some 7)), .reference 7] && !m.begun) (by decide +kernel)
  rcases hrun with ⟨s, hr, hp⟩
  rw [Bool.and_eq_true, decide_eq_true_eq, Option.any_eq_true] at hp
  rcases hp with ⟨hobject, m, hm, hsent⟩
  rw [Bool.and_eq_true, decide_eq_true_eq, Bool.not_eq_true'] at hsent
  exact ⟨s, m, hsent.1, hobject, async_args_isolated hr hm hsent.2⟩

/-- A target that deletes the block it replaces itself. -/
example : ((argHeapLts Unit ℕ).execWhen Lts.always initial
    [.new (.object 7), .new (.pointer (some 0)), .send () [.pointerPointer (some 1)] ⟨[], [], []⟩,
      .begin (), .new (.object 8), .delete 3, .targetWrite () 2 (.pointer (some 4)),
      .release ()]).any (·.faulted) = true := by
  decide +kernel

end AsyncSqlite
