import AsyncSqlite.Allocator.Table

/-!
# AsyncSqlite.Allocator.Owners — every block is in one place

A block is on the free list of its allocator, with a thread between two sections, or
with a caller (`XPlace`). `place` says where each block is, so that it is not in two
places at once. A step moves one block and writes to that block alone
(`PlaceInv.move`), so the other lists and headers stay as they are.
-/

namespace AsyncSqlite

/-- Where a block is. -/
inductive XPlace where
  | free (a : ℕ)
  | held (t : ℕ)
  | owned
deriving DecidableEq

theorem XPlace.held_ne {t t' : ℕ} (h : t' ≠ t) : XPlace.held t ≠ .held t' :=
  fun heq => h (XPlace.held.inj heq).symm

/-- The block at `b` was made by the allocator `a`. -/
def Xheap.MadeBy (s : Xheap) (b a : ℕ) : Prop := ∃ r ∈ s.raw, r.start = b ∧ r.creator = a

namespace XallocSystem

variable {o : XallocOptions} {s s' : XallocSystem} {l : XallocLabel} {entries : List ℕ}
  {t : ℕ} {pc : XThread} {place : ℕ → XPlace} {r₀ : RawBlock} {x : XPlace}

/-- An owner's pointer to the block `r`. -/
structure Owns (o : XallocOptions) (s : XallocSystem) (p size : ℕ) (r : RawBlock) : Prop where
  raw : r ∈ s.heap.raw
  pointer : p = r.start + o.headerSize
  room : o.headerSize + size + o.footerSize ≤ r.len
  header : s.heap.getBlockAllocator o r.start = some r.creator

structure PlaceInv (o : XallocOptions) (s : XallocSystem) (place : ℕ → XPlace) : Prop where
  listed : ∀ a, some a ∈ s.heap.table → ∃ A free, s.heap.allocators a = some A ∧
    A.Free o.target s.heap.mem free ∧ ∀ b ∈ free, place b = .free a ∧ s.heap.MadeBy b a
  /-- an allocator outside of the table has no free blocks -/
  made : ∀ t a, (s.threads t).made = some a →
    ∃ A, s.heap.allocators a = some A ∧ A.head = none
  held : ∀ t a b, (s.threads t).holds = some (a, b) → place b = .held t ∧ s.heap.MadeBy b a
  owned : ∀ p size, (p, size) ∈ s.owned → ∃ r, Owns o s p size r ∧ place r.start = .owned
  once : (s.owned.map Prod.fst).Nodup
  freed : ∀ y ∈ s.freed, s.heap.MadeBy y.1 y.2
  apart : s.heap.raw.Pairwise RawBlock.Apart
  range : ∀ r ∈ s.heap.raw, 0 < r.start ∧ r.extent.stop ≤ o.target.sizeT
  creator : ∀ r ∈ s.heap.raw, some r.creator ∈ s.heap.table ∧
    s.heap.getBlockSize r.creator = r.len

theorem PlaceInv.initial (m : HeapMemory) (place : ℕ → XPlace) :
    PlaceInv o (.initial o m) place := by
  refine ⟨fun a ha => ?_, ?_, ?_, ?_, List.nodup_nil, ?_, .nil, ?_, ?_⟩
  · cases List.eq_of_mem_replicate ha
  · intro t a ha
    cases ha
  · intro t a b hb
    cases hb
  · exact fun p size hmem => absurd hmem List.not_mem_nil
  · exact fun y hy => absurd hy List.not_mem_nil
  · exact fun r hr => absurd hr List.not_mem_nil
  · exact fun r hr => absurd hr List.not_mem_nil

/-! ## Blocks -/

theorem PlaceInv.pointer_le (h : PlaceInv o s place) (ht : TableInv o s entries) {r : RawBlock}
    (hr : r ∈ s.heap.raw) : o.target.pointer ≤ r.len := by
  obtain ⟨hmem, hsize⟩ := h.creator r hr
  rw [← hsize]
  exact ht.wide r.creator (ht.lists.mem_iff.mp hmem)

theorem PlaceInv.len_pos (h : PlaceInv o s place) (ht : TableInv o s entries) {r : RawBlock}
    (hr : r ∈ s.heap.raw) : 0 < r.len :=
  Nat.lt_of_lt_of_le o.target.pointer_pos (h.pointer_le ht hr)

/-- One block begins at an address. -/
theorem PlaceInv.eq_of_start (h : PlaceInv o s place) (ht : TableInv o s entries)
    {r r' : RawBlock} (hr : r ∈ s.heap.raw) (hr' : r' ∈ s.heap.raw) (heq : r.start = r'.start) :
    r = r' :=
  RawBlock.eq_of_start h.apart (fun _ hr => h.len_pos ht hr) hr hr' heq

theorem PlaceInv.madeBy_iff (h : PlaceInv o s place) (ht : TableInv o s entries) {r : RawBlock}
    (hr : r ∈ s.heap.raw) {a : ℕ} : s.heap.MadeBy r.start a ↔ r.creator = a := by
  constructor
  · rintro ⟨r', hr', heq, hcreator⟩
    rwa [h.eq_of_start ht hr hr' heq.symm]
  · exact fun heq => ⟨r, hr, rfl, heq⟩

theorem Owns.roomy {p size : ℕ} {r : RawBlock} (ho : Owns o s p size r)
    (h : PlaceInv o s place) : Xheap.Roomy o s.heap r.start r.creator := by
  obtain ⟨-, hsize⟩ := h.creator r ho.raw
  obtain ⟨hpos, hstop⟩ := h.range r ho.raw
  have hroom := ho.room
  simp only [Extent.stop, RawBlock.extent] at hstop
  refine ⟨?_, hpos, ?_⟩ <;> omega

/-- A free list does not notice what happens to a block that is not on it. -/
theorem PlaceInv.free_elsewhere (h : PlaceInv o s place) (ht : TableInv o s entries)
    (hr₀ : r₀ ∈ s.heap.raw) {m' : HeapMemory}
    (hmem : Memory.ChangesOnly r₀.extent s.heap.mem m') {A : Allocator} {a : ℕ} {free : List ℕ}
    (hfree : A.Free o.target s.heap.mem free) (hmade : ∀ b ∈ free, s.heap.MadeBy b a)
    (hnot : r₀.start ∉ free) : A.Free o.target m' free := by
  refine hfree.congr rfl fun b hb => ?_
  obtain ⟨r, hr, rfl, -⟩ := hmade b hb
  have hne : r ≠ r₀ := by
    rintro rfl
    exact hnot hb
  -- the link is in the first bytes of a block apart from the one that changes
  have hlen := h.pointer_le ht hr
  have happart : r.Apart r₀ := h.apart.forall hr hr₀ hne
  refine hmem.load o.target.pointer_pos (happart.mono ?_ ⟨Nat.le_refl _, Nat.le_refl _⟩)
  simp only [Extent.Within, Extent.stop, RawBlock.extent]
  omega

/-- Nor does another owner. -/
theorem Owns.elsewhere {p size : ℕ} {r : RawBlock} (ho : Owns o s p size r)
    (h : PlaceInv o s place) (hr₀ : r₀ ∈ s.heap.raw) (hne : r ≠ r₀)
    (hsame : Xheap.SameTable s.heap s'.heap) (hraw : s'.heap.raw = s.heap.raw)
    (hmem : Memory.ChangesOnly r₀.extent s.heap.mem s'.heap.mem) : Owns o s' p size r := by
  have hextent : (⟨r.start, s.heap.getBlockSize r.creator⟩ : Extent) = r.extent := by
    rw [(h.creator r ho.raw).2]
    rfl
  have happart : r.Apart r₀ := h.apart.forall ho.raw hr₀ hne
  refine ⟨hraw ▸ ho.raw, ho.pointer, ho.room, ?_⟩
  exact (ho.roomy h).getBlockAllocator_congr ho.header (hsame.getBlockSize _) hmem
    (hextent ▸ happart)

/-! ## Moving one block -/

/-- A step that moves the block `r₀` to `x` and writes to it alone. Of the others it
keeps the lists, the headers and the threads. -/
theorem PlaceInv.move (h : PlaceInv o s place) (ht : TableInv o s entries) (t : ℕ)
    (pc : XThread) (hr₀ : r₀ ∈ s.heap.raw) (hsame : Xheap.SameTable s.heap s'.heap)
    (hraw : s'.heap.raw = s.heap.raw)
    (hmem : Memory.ChangesOnly r₀.extent s.heap.mem s'.heap.mem)
    (hothers : ∀ a ≠ r₀.creator, s'.heap.allocators a = s.heap.allocators a)
    (hlist : ∃ A free, s'.heap.allocators r₀.creator = some A ∧
      A.Free o.target s'.heap.mem free ∧ ∀ b ∈ free,
        Function.update place r₀.start x b = .free r₀.creator ∧ s.heap.MadeBy b r₀.creator)
    (hthreads : s'.threads = Function.update s.threads t pc)
    (hmade : ∀ a, pc.made = some a → (s.threads t).made = some a)
    (hholds : ∀ a b, pc.holds = some (a, b) →
      b = r₀.start ∧ a = r₀.creator ∧ x = .held t ∨
        b ≠ r₀.start ∧ (s.threads t).holds = some (a, b))
    (hplace : ∀ t' ≠ t, place r₀.start ≠ .held t')
    (howned : ∀ p size, (p, size) ∈ s'.owned →
      (p, size) ∈ s.owned ∧ p ≠ r₀.start + o.headerSize ∨ Owns o s' p size r₀ ∧ x = .owned)
    (honce : (s'.owned.map Prod.fst).Nodup)
    (hfreed : ∀ y ∈ s'.freed, s.heap.MadeBy y.1 y.2) :
    PlaceInv o s' (Function.update place r₀.start x) := by
  have hmadeBy {b a : ℕ} (hb : s.heap.MadeBy b a) : s'.heap.MadeBy b a := by
    unfold Xheap.MadeBy
    rwa [hraw]
  have hkeep {b : ℕ} (hb : b ≠ r₀.start) : Function.update place r₀.start x b = place b :=
    Function.update_of_ne hb ..
  refine ⟨?_, ?_, ?_, ?_, honce, fun y hy => hmadeBy (hfreed y hy), ?_, ?_, ?_⟩
  · -- the lists: one is given, the others do not have the block
    intro a ha
    rw [hsame.table] at ha
    by_cases hcreator : a = r₀.creator
    · subst hcreator
      obtain ⟨A, free, hA, hfree, hfrees⟩ := hlist
      exact ⟨A, free, hA, hfree, fun b hb => ⟨(hfrees b hb).1, hmadeBy (hfrees b hb).2⟩⟩
    · obtain ⟨A, free, hA, hfree, hfrees⟩ := h.listed a ha
      -- the block that moves is of another allocator
      have hne {b : ℕ} (hb : b ∈ free) : b ≠ r₀.start := by
        rintro rfl
        exact hcreator ((h.madeBy_iff ht hr₀).mp (hfrees _ hb).2).symm
      refine ⟨A, free, (hothers a hcreator).trans hA, ?_, fun b hb => ?_⟩
      · exact h.free_elsewhere ht hr₀ hmem hfree (fun b hb => (hfrees b hb).2)
          fun hb => hne hb rfl
      · rw [hkeep (hne hb)]
        exact ⟨(hfrees b hb).1, hmadeBy (hfrees b hb).2⟩
  · -- allocators that are not in the table have not made the block
    intro t' a ha
    have hbefore : (s.threads t').made = some a := by
      rw [hthreads] at ha
      by_cases htt : t' = t
      · subst htt
        rw [Function.update_self] at ha
        exact hmade a ha
      · rwa [Function.update_of_ne htt] at ha
    have hne : a ≠ r₀.creator := by
      rintro rfl
      exact (ht.made t' _ hbefore).1 (ht.lists.mem_iff.mp (h.creator r₀ hr₀).1)
    obtain ⟨A, hA, hhead⟩ := h.made t' a hbefore
    exact ⟨A, (hothers a hne).trans hA, hhead⟩
  · -- the blocks with threads
    intro t' a b hb
    rw [hthreads] at hb
    by_cases htt : t' = t
    · subst htt
      rw [Function.update_self] at hb
      rcases hholds a b hb with ⟨rfl, rfl, rfl⟩ | ⟨hne, hb⟩
      · rw [Function.update_self]
        exact ⟨rfl, hmadeBy ⟨r₀, hr₀, rfl, rfl⟩⟩
      · rw [hkeep hne]
        exact ⟨(h.held t' a b hb).1, hmadeBy (h.held t' a b hb).2⟩
    · rw [Function.update_of_ne htt] at hb
      obtain ⟨hheld, hmine⟩ := h.held t' a b hb
      have hne : b ≠ r₀.start := by
        rintro rfl
        exact hplace t' htt hheld
      rw [hkeep hne]
      exact ⟨hheld, hmadeBy hmine⟩
  · -- the blocks with callers
    intro p size hp
    rcases howned p size hp with ⟨hbefore, hne⟩ | ⟨hown, rfl⟩
    · obtain ⟨r, hown, hplaced⟩ := h.owned p size hbefore
      have hstart : r.start ≠ r₀.start := by
        intro heq
        rw [hown.pointer, heq] at hne
        exact hne rfl
      have hr : r ≠ r₀ := by
        rintro rfl
        exact hstart rfl
      refine ⟨r, hown.elsewhere h hr₀ hr hsame hraw hmem, ?_⟩
      rw [hkeep hstart]
      exact hplaced
    · exact ⟨r₀, hown, Function.update_self ..⟩
  · rw [hraw]
    exact h.apart
  · rw [hraw]
    exact h.range
  · intro r hr
    rw [hraw] at hr
    obtain ⟨hmem, hsize⟩ := h.creator r hr
    rw [hsame.table, hsame.getBlockSize]
    exact ⟨hmem, hsize⟩

/-- A step that moves no block and writes nothing. The table may grow. -/
theorem PlaceInv.quiet (h : PlaceInv o s place) (hmem : s'.heap.mem = s.heap.mem)
    (hraw : s'.heap.raw = s.heap.raw) (howned : s'.owned = s.owned)
    (hfreed : s'.freed = s.freed)
    (hlisted : ∀ a, some a ∈ s'.heap.table →
      some a ∈ s.heap.table ∧ s'.heap.allocators a = s.heap.allocators a ∨
        ∃ A, s'.heap.allocators a = some A ∧ A.head = none)
    (hgrows : ∀ a, some a ∈ s.heap.table →
      some a ∈ s'.heap.table ∧ s'.heap.getBlockSize a = s.heap.getBlockSize a)
    (hmade : ∀ t a, (s'.threads t).made = some a →
      ∃ A, s'.heap.allocators a = some A ∧ A.head = none)
    (hholds : ∀ t, (s'.threads t).holds = (s.threads t).holds) : PlaceInv o s' place := by
  have hmadeBy {b a : ℕ} (hb : s.heap.MadeBy b a) : s'.heap.MadeBy b a := by
    unfold Xheap.MadeBy
    rwa [hraw]
  refine ⟨?_, hmade, ?_, ?_, ?_, ?_, ?_, ?_, ?_⟩
  · intro a ha
    rcases hlisted a ha with ⟨hbefore, hallocator⟩ | ⟨A, hA, hhead⟩
    · obtain ⟨A, free, hA, hfree, hfrees⟩ := h.listed a hbefore
      rw [← hmem] at hfree
      exact ⟨A, free, hallocator.trans hA, hfree,
        fun b hb => ⟨(hfrees b hb).1, hmadeBy (hfrees b hb).2⟩⟩
    · -- an allocator that is new in the table has an empty list
      exact ⟨A, [], hA, hhead, fun b hb => absurd hb List.not_mem_nil⟩
  · intro t a b hb
    rw [hholds] at hb
    exact ⟨(h.held t a b hb).1, hmadeBy (h.held t a b hb).2⟩
  · intro p size hp
    rw [howned] at hp
    obtain ⟨r, hown, hplaced⟩ := h.owned p size hp
    refine ⟨r, ⟨hraw ▸ hown.raw, hown.pointer, hown.room, ?_⟩, hplaced⟩
    -- nothing was written, so the header is the same
    refine (hown.roomy h).getBlockAllocator_congr hown.header
      (hgrows r.creator (h.creator r hown.raw).1).2 (e := ⟨0, 0⟩) (fun x _ => ?_) (Or.inr ?_)
    · rw [hmem]
    · exact Nat.zero_le _
  · rw [howned]
    exact h.once
  · rw [hfreed]
    exact fun y hy => hmadeBy (h.freed y hy)
  · rw [hraw]
    exact h.apart
  · rw [hraw]
    exact h.range
  · intro r hr
    rw [hraw] at hr
    obtain ⟨hmem, hsize⟩ := h.creator r hr
    obtain ⟨hmem', hsize'⟩ := hgrows r.creator hmem
    exact ⟨hmem', hsize'.trans hsize⟩

/-! ## The steps in `xallocator_get_allocator` -/

section GetAllocator

variable {call : XallocCall} {a : ℕ}

/-- What threads have made, behind a step of one of them. -/
theorem made_update {Q : ℕ → Prop} {threads : ℕ → XThread} (hpc : ∀ a, pc.made = some a → Q a)
    (h : ∀ t' ≠ t, ∀ a, (threads t').made = some a → Q a) :
    ∀ t' a, (Function.update threads t pc t').made = some a → Q a := by
  intro t' a ha
  by_cases htt : t' = t
  · subst htt
    rw [Function.update_self] at ha
    exact hpc a ha
  · rw [Function.update_of_ne htt] at ha
    exact h t' htt a ha

/-- What threads hold, where the one that steps holds what it held. -/
theorem holds_update {threads : ℕ → XThread} (hpc : pc.holds = (threads t).holds) (t' : ℕ) :
    (Function.update threads t pc t').holds = (threads t').holds := by
  by_cases htt : t' = t
  · subst htt
    rw [Function.update_self, hpc]
  · rw [Function.update_of_ne htt]

/-- A thread goes on, with the blocks that it had. -/
theorem PlaceInv.goto (h : PlaceInv o s place) (hheap : s'.heap = s.heap)
    (howned : s'.owned = s.owned) (hfreed : s'.freed = s.freed)
    (hthreads : s'.threads = Function.update s.threads t pc)
    (hmade : ∀ a, pc.made = some a → (s.threads t).made = some a)
    (hholds : pc.holds = (s.threads t).holds) : PlaceInv o s' place := by
  refine h.quiet (congrArg _ hheap) (congrArg _ hheap) howned hfreed ?_ ?_ ?_ ?_
  · intro a ha
    rw [hheap] at ha ⊢
    exact Or.inl ⟨ha, rfl⟩
  · intro a ha
    rw [hheap]
    exact ⟨ha, rfl⟩
  · rw [hthreads, hheap]
    exact made_update (fun a ha => h.made t a (hmade a ha)) fun t' _ a ha => h.made t' a ha
  · rw [hthreads]
    exact holds_update hholds

theorem PlaceInv.got (h : PlaceInv o s place) (hholds : (s.threads t).holds = none) :
    PlaceInv o (s.got t call a) place := by
  refine h.goto rfl rfl rfl rfl ?_ ?_
  · intro b hb
    cases call <;> cases hb
  · rw [hholds]
    cases call <;> rfl

theorem PlaceInv.lookup (h : PlaceInv o s place) (hidle : s.threads t = .idle) :
    PlaceInv o (update o (.lookup t call) s) place := by
  have hholds : (s.threads t).holds = none := congrArg XThread.holds hidle
  simp only [update]
  split
  · exact h.got hholds
  · refine h.goto rfl rfl rfl rfl ?_ hholds.symm
    intro a ha
    cases ha

theorem PlaceInv.create (h : PlaceInv o s place) (ht : TableInv o s entries) {fresh : ℕ}
    (hpc : s.threads t = .create call) (hfresh : s.heap.allocators fresh = none) :
    PlaceInv o ({ s with heap := s.heap.newAllocator o (o.blockSize call.size) fresh }.goto t
      (.insert call fresh)) place := by
  have hkeep {b : ℕ} (hb : b ≠ fresh) :
      (s.heap.newAllocator o (o.blockSize call.size) fresh).allocators b =
        s.heap.allocators b :=
    Xheap.allocators_setAllocator_of_ne hb _
  have hentry {b : ℕ} (hb : some b ∈ s.heap.table) : b ≠ fresh := by
    rintro rfl
    exact ht.live b (ht.lists.mem_iff.mp hb) hfresh
  refine h.quiet rfl rfl rfl rfl ?_ ?_ ?_ ?_
  · exact fun b hb => Or.inl ⟨hb, hkeep (hentry hb)⟩
  · intro b hb
    refine ⟨hb, ?_⟩
    show (s.heap.newAllocator o (o.blockSize call.size) fresh).getBlockSize b = _
    unfold Xheap.getBlockSize
    rw [hkeep (hentry hb)]
  · -- the new allocator has no blocks; the others were there before
    refine made_update ?_ fun t' _ b hb => ?_
    · intro b hb
      obtain rfl := Option.some.inj hb
      exact ⟨_, Xheap.allocators_setAllocator_self .., rfl⟩
    · obtain ⟨A, hA, hhead⟩ := h.made t' b hb
      refine ⟨A, (hkeep ?_).trans hA, hhead⟩
      rintro rfl
      rw [hfresh] at hA
      cases hA
  · refine holds_update ?_
    rw [hpc]
    rfl

/-- The allocator that goes to the table has no free blocks. -/
theorem PlaceInv.insert (h : PlaceInv o s place) (ht : TableInv o s entries) {heap : Xheap}
    (hpc : s.threads t = .insert call a) (hins : s.heap.insertAllocator a = some heap) :
    PlaceInv o ({ s with heap := heap }.got t call a) place := by
  obtain ⟨hlists, hallocators, hmem, hraw⟩ := ht.lists.insertAllocator hins
  have hown : (s.threads t).made = some a := congrArg XThread.made hpc
  refine h.quiet hmem hraw rfl rfl ?_ ?_ ?_ ?_
  · intro b hb
    show _ ∧ heap.allocators b = s.heap.allocators b ∨
      ∃ A, heap.allocators b = some A ∧ A.head = none
    rw [hallocators]
    rcases List.mem_append.mp (hlists.mem_iff.mp hb) with hb | hb
    · exact Or.inl ⟨ht.lists.mem_iff.mpr hb, rfl⟩
    · obtain rfl := List.mem_singleton.mp hb
      -- nothing was given back to an allocator that is not in the table yet
      exact Or.inr (h.made t b hown)
  · intro b hb
    refine ⟨hlists.mem_iff.mpr (List.mem_append_left _ (ht.lists.mem_iff.mp hb)), ?_⟩
    show heap.getBlockSize b = _
    unfold Xheap.getBlockSize
    rw [hallocators]
  · show ∀ t' b, (Function.update s.threads t _ t').made = some b →
      ∃ A, heap.allocators b = some A ∧ A.head = none
    rw [hallocators]
    refine made_update ?_ fun t' _ b hb => h.made t' b hb
    intro b hb
    cases call <;> cases hb
  · refine holds_update ?_
    rw [hpc]
    cases call <;> rfl

theorem PlaceInv.discard (h : PlaceInv o s place) (ht : TableInv o s entries) (pc : XThread)
    (hmade : (s.threads t).made = some a) (hpc : pc.made = none) (hholds : pc.holds = none)
    (hbefore : (s.threads t).holds = none) {returned : List ℕ} :
    PlaceInv o ({ s with heap := s.heap.deleteAllocator a, returned := returned }.goto t pc)
      place := by
  have hkeep {b : ℕ} (hb : b ≠ a) :
      (s.heap.deleteAllocator a).allocators b = s.heap.allocators b :=
    Xheap.allocators_setAllocator_of_ne hb _
  have hentry {b : ℕ} (hb : some b ∈ s.heap.table) : b ≠ a := by
    rintro rfl
    exact (ht.made t b hmade).1 (ht.lists.mem_iff.mp hb)
  refine h.quiet rfl rfl rfl rfl ?_ ?_ ?_ ?_
  · exact fun b hb => Or.inl ⟨hb, hkeep (hentry hb)⟩
  · intro b hb
    refine ⟨hb, ?_⟩
    show (s.heap.deleteAllocator a).getBlockSize b = _
    unfold Xheap.getBlockSize
    rw [hkeep (hentry hb)]
  · refine made_update ?_ fun t' htt b hb => ?_
    · intro b hb
      rw [hpc] at hb
      cases hb
    · obtain ⟨A, hA, hhead⟩ := h.made t' b hb
      refine ⟨A, (hkeep ?_).trans hA, hhead⟩
      rintro rfl
      exact htt (ht.once t' t b hb hmade)
  · exact holds_update (hholds.trans hbefore.symm)

end GetAllocator

/-! ## The steps with blocks -/

section Blocks

variable {a b size ptr : ℕ}

theorem PlaceInv.free_of_listed (h : PlaceInv o s place) (ht : TableInv o s entries)
    (ha : a ∈ entries) : ∃ A free, s.heap.allocators a = some A ∧
      A.Free o.target s.heap.mem free ∧ ∀ b ∈ free, place b = .free a ∧ s.heap.MadeBy b a :=
  h.listed a (ht.lists.mem_iff.mpr ha)

/-- The list of an allocator, when a block moves that is not on it. -/
theorem PlaceInv.list_elsewhere (h : PlaceInv o s place) (ht : TableInv o s entries)
    (hr₀ : r₀ ∈ s.heap.raw) (hnot : place r₀.start ≠ .free r₀.creator)
    {m' : HeapMemory} (hmem : Memory.ChangesOnly r₀.extent s.heap.mem m') :
    ∃ A free, s.heap.allocators r₀.creator = some A ∧ A.Free o.target m' free ∧
      ∀ b ∈ free, Function.update place r₀.start x b = .free r₀.creator ∧
        s.heap.MadeBy b r₀.creator := by
  obtain ⟨A, free, hA, hfree, hfrees⟩ := h.listed r₀.creator (h.creator r₀ hr₀).1
  have hout : r₀.start ∉ free := fun hmem => hnot (hfrees _ hmem).1
  refine ⟨A, free, hA, h.free_elsewhere ht hr₀ hmem hfree (fun b hb => (hfrees b hb).2) hout,
    fun b hb => ?_⟩
  have hne : b ≠ r₀.start := by
    rintro rfl
    exact hout hb
  rw [Function.update_of_ne hne]
  exact hfrees b hb

/-- A caller's pointer is not to a block that is elsewhere. -/
theorem PlaceInv.ne_of_owned (h : PlaceInv o s place) (hp : (ptr, size) ∈ s.owned)
    (hplace : place b ≠ .owned) : ptr ≠ b + o.headerSize := by
  rintro rfl
  obtain ⟨r, hown, howned⟩ := h.owned _ _ hp
  have hstart : r.start = b := by
    have := hown.pointer
    omega
  rw [hstart] at howned
  exact hplace howned

theorem PlaceInv.pop (h : PlaceInv o s place) (ht : TableInv o s entries)
    (hpc : s.threads t = .pop size a) :
    ∃ place', PlaceInv o (update o (.pop t) s) place' := by
  have hok := ht.ok hpc
  obtain ⟨A, free, hA, hfree, hfrees⟩ := h.free_of_listed ht hok.1
  have hsame := Xheap.sameTable_pop (o := o) s.heap a
  cases free with
  | nil =>
    -- an empty list: the thread goes on to `new`, and nothing has moved
    have hpop := Xheap.popBlock_nil hA hfree
    rw [hpop] at hsame
    have hkeep (b : ℕ) : (s.heap.setAllocator a (some A)).allocators b = s.heap.allocators b := by
      by_cases hb : b = a
      · subst hb
        rw [Xheap.allocators_setAllocator_self, hA]
      · exact Xheap.allocators_setAllocator_of_ne hb _
    refine ⟨place, ?_⟩
    simp only [update, hpc, hpop]
    refine h.quiet rfl rfl rfl rfl (fun b hb => Or.inl ⟨hb, hkeep b⟩)
      (fun b hb => ⟨hb, hsame.getBlockSize b⟩) ?_ (holds_update (by rw [hpc]; rfl))
    refine made_update (fun b hb => ?_) fun t' _ b hb => ?_
    · cases hb
    · obtain ⟨B, hB, hhead⟩ := h.made t' b hb
      exact ⟨B, (hkeep b).trans hB, hhead⟩
  | cons b free =>
    obtain ⟨p, hpop, hrest⟩ := Xheap.popBlock_cons hA hfree
    rw [hpop] at hsame
    -- the first block of the list moves to the thread
    obtain ⟨hplaced, r₀, hr₀, rfl, rfl⟩ := hfrees b List.mem_cons_self
    obtain ⟨hnot, -⟩ := List.nodup_cons.mp hfree.nodup
    refine ⟨Function.update place r₀.start (.held t), ?_⟩
    simp only [update, hpc, hpop]
    refine h.move ht t _ hr₀ hsame rfl (.refl _ _)
      (fun c hc => Xheap.allocators_setAllocator_of_ne hc _) ?_ rfl ?_ ?_ ?_ ?_ h.once h.freed
    · refine ⟨_, free, Xheap.allocators_setAllocator_self .., hrest, fun c hc => ?_⟩
      have hne : c ≠ r₀.start := by
        rintro rfl
        exact hnot hc
      rw [Function.update_of_ne hne]
      exact hfrees c (List.mem_cons_of_mem _ hc)
    · intro c hc
      cases hc
    · intro c b hb
      obtain ⟨rfl, rfl⟩ := Prod.mk.inj (Option.some.inj hb)
      exact Or.inl ⟨rfl, rfl, rfl⟩
    · intro t' _
      rw [hplaced]
      exact XPlace.noConfusion
    · refine fun p size hp => Or.inl ⟨hp, h.ne_of_owned hp ?_⟩
      rw [hplaced]
      exact XPlace.noConfusion

theorem PlaceInv.account (h : PlaceInv o s place) (ht : TableInv o s entries)
    (hpc : s.threads t = .account size a b) :
    ∃ place', PlaceInv o (update o (.account t) s) place' := by
  have hholds : (s.threads t).holds = some (a, b) := congrArg XThread.holds hpc
  obtain ⟨hplaced, r₀, hr₀, rfl, rfl⟩ := h.held t a b hholds
  -- the block is in the thread's hand, so on no list
  have hnot : place r₀.start ≠ .free r₀.creator := by
    rw [hplaced]
    exact XPlace.noConfusion
  obtain ⟨A, free, hA, hfree, hfrees⟩ :=
    h.list_elsewhere (x := .held t) ht hr₀ hnot (.refl _ _)
  refine ⟨Function.update place r₀.start (.held t), ?_⟩
  simp only [update, hpc]
  refine h.move ht t _ hr₀ (Xheap.sameTable_account s.heap _) rfl (.refl _ _)
    (fun c hc => Xheap.allocators_setAllocator_of_ne hc _) ?_ rfl ?_ ?_ ?_ ?_ h.once h.freed
  · refine ⟨A.accountAlloc true, free, ?_, hfree, hfrees⟩
    show (s.heap.accountNew r₀.creator).allocators r₀.creator = _
    rw [Xheap.accountNew, Xheap.allocators_setAllocator_self, hA, Option.map_some]
  · intro c hc
    cases hc
  · intro c d hd
    obtain ⟨rfl, rfl⟩ := Prod.mk.inj (Option.some.inj hd)
    exact Or.inl ⟨rfl, rfl, rfl⟩
  · intro t' htt
    rw [hplaced]
    exact XPlace.held_ne htt
  · refine fun p size hp => Or.inl ⟨hp, h.ne_of_owned hp ?_⟩
    rw [hplaced]
    exact XPlace.noConfusion

/-- A block of the heap is where no block was. -/
theorem PlaceInv.newBlock (h : PlaceInv o s place) (ht : TableInv o s entries) {fresh : ℕ}
    (hpc : s.threads t = .newBlock size a)
    (hfresh : s.heap.FreshBlock o fresh (s.heap.getBlockSize a)) :
    ∃ place', PlaceInv o (update o (.newBlock t fresh) s) place' := by
  have hok := ht.ok hpc
  have hwide := ht.wide a hok.1
  have hpos := o.target.pointer_pos
  -- no block begins where the new one does
  have hne {r : RawBlock} (hr : r ∈ s.heap.raw) : r.start ≠ fresh := by
    intro heq
    have hlen := h.len_pos ht hr
    have happart := hfresh.apart r hr
    simp only [Extent.Apart, Extent.stop, RawBlock.extent] at happart
    omega
  have hkeep {b c : ℕ} (hb : s.heap.MadeBy b c) :
      Function.update place fresh (.held t) b = place b ∧
        (s.heap.newBlock a fresh).MadeBy b c := by
    obtain ⟨r, hr, rfl, hcreator⟩ := hb
    exact ⟨Function.update_of_ne (hne hr) .., r, List.mem_append_left _ hr, rfl, hcreator⟩
  refine ⟨Function.update place fresh (.held t), ?_⟩
  simp only [update, hpc]
  refine ⟨?_, ?_, ?_, ?_, h.once, fun y hy => (hkeep (h.freed y hy)).2, ?_, ?_, ?_⟩
  · intro c hc
    obtain ⟨A, free, hA, hfree, hfrees⟩ := h.listed c hc
    refine ⟨A, free, hA, hfree, fun b hb => ?_⟩
    obtain ⟨hplaced, hmade⟩ := hfrees b hb
    exact ⟨(hkeep hmade).1.trans hplaced, (hkeep hmade).2⟩
  · refine made_update (fun b hb => ?_) fun t' _ b hb => h.made t' b hb
    cases hb
  · intro t' c b hb
    by_cases htt : t' = t
    · subst htt
      simp only [XallocSystem.goto, Function.update_self] at hb
      obtain ⟨rfl, rfl⟩ := Prod.mk.inj (Option.some.inj hb)
      exact ⟨Function.update_self .., _, List.mem_append_right _ (List.mem_singleton_self _), rfl,
        rfl⟩
    · simp only [XallocSystem.goto, Function.update_of_ne htt] at hb
      obtain ⟨hplaced, hmade⟩ := h.held t' c b hb
      exact ⟨(hkeep hmade).1.trans hplaced, (hkeep hmade).2⟩
  · intro p size hp
    obtain ⟨r, hown, hplaced⟩ := h.owned p size hp
    exact ⟨r, ⟨List.mem_append_left _ hown.raw, hown.pointer, hown.room, hown.header⟩,
      (Function.update_of_ne (hne hown.raw) ..).trans hplaced⟩
  · refine List.pairwise_append.mpr ⟨h.apart, List.pairwise_singleton _ _, ?_⟩
    intro r hr r' hr'
    rw [List.mem_singleton.mp hr']
    exact hfresh.apart r hr
  · intro r hr
    rcases List.mem_append.mp hr with hr | hr
    · exact h.range r hr
    · rw [List.mem_singleton.mp hr]
      exact hfresh.range
  · intro r hr
    rcases List.mem_append.mp hr with hr | hr
    · exact h.creator r hr
    · rw [List.mem_singleton.mp hr]
      exact ⟨ht.lists.mem_iff.mpr hok.1, rfl⟩

theorem PlaceInv.stamp (h : PlaceInv o s place) (ht : TableInv o s entries)
    (hpc : s.threads t = .stamp size a b) :
    ∃ place', PlaceInv o (update o (.stamp t) s) place' := by
  have hholds : (s.threads t).holds = some (a, b) := congrArg XThread.holds hpc
  have hok := ht.ok hpc
  obtain ⟨hplaced, r₀, hr₀, rfl, rfl⟩ := h.held t a b hholds
  obtain ⟨-, hsize⟩ := h.creator r₀ hr₀
  obtain ⟨hpos, hstop⟩ := h.range r₀ hr₀
  have hroom : o.headerSize + size + o.footerSize ≤ r₀.len := by
    rw [← hsize]
    exact hok.2
  simp only [Extent.stop, RawBlock.extent] at hstop
  have hroomy : Xheap.Roomy o s.heap r₀.start r₀.creator := by
    refine ⟨?_, hpos, ?_⟩ <;> omega
  have hset := hroomy.changesOnly_set
  rw [hsize] at hset
  have hnot : place r₀.start ≠ .owned := by
    rw [hplaced]
    exact XPlace.noConfusion
  have hlist := h.list_elsewhere (x := .owned) ht hr₀ (by rw [hplaced]; exact XPlace.noConfusion)
    hset
  obtain ⟨A, free, hA, hfree, hfrees⟩ := hlist
  -- the pointer that `xmalloc` returns
  have hnew {x : ℕ × ℕ}
      (hx : x ∈ (o.target.address (r₀.start + o.headerSize)).toList.map (·, size)) :
      x = (r₀.start + o.headerSize, size) := by
    obtain ⟨p, hp, rfl⟩ := List.mem_map.mp hx
    have heq : p = r₀.start + o.headerSize :=
      Target.eq_of_mem_address (by omega) (Option.mem_toList.mp hp)
    rw [heq]
  refine ⟨Function.update place r₀.start .owned, ?_⟩
  simp only [update, hpc]
  refine h.move ht t _ hr₀ (Xheap.sameTable_stamp s.heap _ _) rfl hset (fun c _ => rfl)
    ⟨A, free, hA, hfree, hfrees⟩ rfl ?_ ?_ ?_ ?_ ?_ h.freed
  · intro c hc
    cases hc
  · intro c d hd
    cases hd
  · intro t' htt
    rw [hplaced]
    exact XPlace.held_ne htt
  · intro p size' hp
    rcases List.mem_append.mp hp with hp | hp
    · exact Or.inl ⟨hp, h.ne_of_owned hp hnot⟩
    · obtain ⟨rfl, rfl⟩ := Prod.mk.inj (hnew hp)
      exact Or.inr ⟨⟨hr₀, rfl, hroom, hroomy.getBlockAllocator_set⟩, rfl⟩
  · show ((s.owned ++ _).map Prod.fst).Nodup
    rw [List.map_append]
    refine List.nodup_append.mpr ⟨h.once, ?_, ?_⟩
    · cases o.target.address (r₀.start + o.headerSize) with
      | none => exact List.nodup_nil
      | some p => exact List.nodup_singleton _
    · intro p hp p' hp'
      obtain ⟨⟨p, size⟩, hmem, rfl⟩ := List.mem_map.mp hp
      obtain ⟨x, hx, rfl⟩ := List.mem_map.mp hp'
      rw [hnew hx]
      exact h.ne_of_owned hmem hnot

/-- `xfree` finds the allocator in the header. -/
theorem PlaceInv.getBlockAllocator (h : PlaceInv o s place) (hp : (ptr, size) ∈ s.owned) :
    ∃ r, Owns o s ptr size r ∧ place r.start = .owned ∧ Xheap.getBlockPtr o ptr = r.start ∧
      s.heap.getBlockAllocator o (Xheap.getBlockPtr o ptr) = some r.creator := by
  obtain ⟨r, hown, hplaced⟩ := h.owned ptr size hp
  have hptr : Xheap.getBlockPtr o ptr = r.start := by
    rw [hown.pointer]
    exact (hown.roomy h).getBlockPtr
  rw [hptr]
  exact ⟨r, hown, hplaced, rfl, hown.header⟩

theorem PlaceInv.free (h : PlaceInv o s place) (ht : TableInv o s entries)
    (hp : (ptr, size) ∈ s.owned) :
    ∃ place', PlaceInv o (update o (.free t ptr size) s) place' := by
  obtain ⟨r₀, hown, hplaced, hptr, hget⟩ := h.getBlockAllocator hp
  have hmark : Memory.ChangesOnly r₀.extent s.heap.mem (s.heap.markFreed o r₀.start).mem := by
    have hmark := (hown.roomy h).changesOnly_mark
    rwa [(h.creator r₀ hown.raw).2] at hmark
  obtain ⟨A, free, hA, hfree, hfrees⟩ := h.list_elsewhere (x := .held t) ht hown.raw
    (by rw [hplaced]; exact XPlace.noConfusion) hmark
  have hsame := Xheap.sameTable_mark (o := o) s.heap r₀.start
  have hallocators : (s.heap.markFreed o r₀.start).allocators = s.heap.allocators := by
    unfold Xheap.markFreed
    split <;> rfl
  have hraw : (s.heap.markFreed o r₀.start).raw = s.heap.raw := by
    unfold Xheap.markFreed
    split <;> rfl
  refine ⟨Function.update place r₀.start (.held t), ?_⟩
  simp only [update, hget]
  rw [hptr]
  refine h.move ht t _ hown.raw hsame hraw hmark (fun c _ => congrFun hallocators c)
    ⟨A, free, (congrFun hallocators _).trans hA, hfree, hfrees⟩ rfl ?_ ?_ ?_ ?_ ?_ h.freed
  · intro c hc
    cases hc
  · intro c d hd
    obtain ⟨rfl, rfl⟩ := Prod.mk.inj (Option.some.inj hd)
    exact Or.inl ⟨rfl, rfl, rfl⟩
  · intro t' htt
    rw [hplaced]
    exact XPlace.noConfusion
  · intro p size' hp'
    have hbefore := List.mem_of_mem_erase hp'
    -- the pointer is freed once, so the caller has it no more
    refine Or.inl ⟨hbefore, ?_⟩
    rw [← hown.pointer]
    rintro rfl
    -- one pair has this pointer, and it was removed
    have heq := List.inj_on_of_nodup_map h.once hbefore hp rfl
    rw [heq] at hp'
    exact (h.once.of_map).not_mem_erase hp'
  · exact h.once.sublist (List.erase_sublist.map _)

/-- `Deallocate` puts the block in front of the list of its allocator. -/
theorem PlaceInv.free_deallocate (h : PlaceInv o s place) (ht : TableInv o s entries)
    (hholds : (s.threads t).holds = some (a, b)) {A : Allocator} {free : List ℕ}
    (hA : s.heap.allocators a = some A) (hfree : A.Free o.target s.heap.mem free) :
    ∃ A', (s.heap.deallocate o a b).allocators a = some A' ∧
      A'.Free o.target (s.heap.deallocate o a b).mem (b :: free) := by
  obtain ⟨hplaced, r₀, hr₀, rfl, rfl⟩ := h.held t a b hholds
  obtain ⟨A₁, free₁, hA₁, hfree₁, hfrees⟩ := h.listed _ (h.creator r₀ hr₀).1
  obtain rfl := Option.some.inj (hA.symm.trans hA₁)
  obtain rfl := Allocator.Free.unique hfree hfree₁
  have hpush := hfree.push (b := r₀.start) fun c hc => ?_
  · unfold Xheap.deallocate
    rw [hA]
    exact ⟨_, Xheap.allocators_setAllocator_self .., hpush⟩
  · obtain ⟨hc', r, hr, rfl, -⟩ := hfrees c hc
    have hne : r₀ ≠ r := by
      rintro rfl
      rw [hplaced] at hc'
      cases hc'
    have happart : r₀.Apart r := h.apart.forall hr₀ hr hne
    have hlen := h.pointer_le ht hr
    have hlen₀ := h.pointer_le ht hr₀
    refine happart.mono ?_ ?_
    all_goals
      simp only [Extent.Within, Extent.stop, RawBlock.extent]
      omega

theorem PlaceInv.deallocate (h : PlaceInv o s place) (ht : TableInv o s entries)
    (hpc : s.threads t = .deallocate a b) :
    ∃ place', PlaceInv o (update o (.deallocate t) s) place' := by
  have hholds : (s.threads t).holds = some (a, b) := congrArg XThread.holds hpc
  obtain ⟨hplaced, r₀, hr₀, rfl, rfl⟩ := h.held t a b hholds
  obtain ⟨hmem, hsize⟩ := h.creator r₀ hr₀
  obtain ⟨A, free, hA, hfree, hfrees⟩ := h.listed _ hmem
  have hout : r₀.start ∉ free := by
    intro hin
    have hin := (hfrees _ hin).1
    rw [hplaced] at hin
    cases hin
  -- `Push` links it in front of the list
  obtain ⟨A', hA', hfree'⟩ := h.free_deallocate ht hholds hA hfree
  have hlink : Memory.ChangesOnly r₀.extent s.heap.mem
      (s.heap.deallocate o r₀.creator r₀.start).mem := by
    have hle : o.target.pointer ≤ s.heap.getBlockSize r₀.creator := by
      rw [hsize]
      exact h.pointer_le ht hr₀
    have hlink : Memory.ChangesOnly ⟨r₀.start, s.heap.getBlockSize r₀.creator⟩ s.heap.mem
        (s.heap.deallocate o r₀.creator r₀.start).mem := Xheap.changesOnly_deallocate hle
    rwa [hsize] at hlink
  have hothers (c : ℕ) (hc : c ≠ r₀.creator) :
      (s.heap.deallocate o r₀.creator r₀.start).allocators c = s.heap.allocators c := by
    unfold Xheap.deallocate
    rw [hA]
    exact Xheap.allocators_setAllocator_of_ne hc _
  have hraw : (s.heap.deallocate o r₀.creator r₀.start).raw = s.heap.raw := by
    unfold Xheap.deallocate
    rw [hA]
    rfl
  refine ⟨Function.update place r₀.start (.free r₀.creator), ?_⟩
  simp only [update, hpc]
  refine h.move ht t _ hr₀ (Xheap.sameTable_deallocate s.heap _ _) hraw hlink hothers
    ⟨A', r₀.start :: free, hA', hfree', ?_⟩ rfl ?_ ?_ ?_ ?_
    h.once ?_
  · intro c hc
    rcases List.mem_cons.mp hc with rfl | hc
    · exact ⟨Function.update_self .., r₀, hr₀, rfl, rfl⟩
    · have hne : c ≠ r₀.start := by
        rintro rfl
        exact hout hc
      rw [Function.update_of_ne hne]
      exact hfrees c hc
  · intro c hc
    cases hc
  · intro c d hd
    cases hd
  · intro t' htt
    rw [hplaced]
    exact XPlace.held_ne htt
  · refine fun p size hp => Or.inl ⟨hp, h.ne_of_owned hp ?_⟩
    rw [hplaced]
    exact XPlace.noConfusion
  · intro y hy
    rcases List.mem_append.mp hy with hy | hy
    · exact h.freed y hy
    · rw [List.mem_singleton.mp hy]
      exact ⟨r₀, hr₀, rfl, rfl⟩

/-- A caller writes between the header and the footer of its block. -/
theorem PlaceInv.write (h : PlaceInv o s place) (ht : TableInv o s entries) {y : ℕ}
    {c : Memval HeapValue} (hp : (ptr, size) ∈ s.owned)
    (hy : (⟨y, 1⟩ : Extent).Within ⟨ptr, size⟩) :
    ∃ place', PlaceInv o (update o (.write ptr size y c) s) place' := by
  obtain ⟨r₀, hown, hplaced⟩ := h.owned ptr size hp
  obtain ⟨-, hsize⟩ := h.creator r₀ hown.raw
  have huser := (hown.roomy h).userSize
  have hroom := hown.room
  have hpointer := hown.pointer
  simp only [Extent.Within, Extent.stop] at hy
  have hpoke : Memory.ChangesOnly ⟨y, 1⟩ s.heap.mem (s.heap.mem.poke y c) := by
    refine fun z hz => Memory.poke_of_ne ?_
    simp only [Extent.stop] at hz
    omega
  have hwithin : (⟨y, 1⟩ : Extent).Within r₀.extent := by
    simp only [Extent.Within, Extent.stop, RawBlock.extent]
    omega
  obtain ⟨A, free, hA, hfree, hfrees⟩ := h.list_elsewhere (x := .owned) ht hown.raw
    (by rw [hplaced]; exact XPlace.noConfusion) (hpoke.mono hwithin)
  refine ⟨Function.update place r₀.start .owned, ?_⟩
  refine h.move ht 0 (s.threads 0) hown.raw ⟨rfl, fun _ => rfl⟩ rfl (hpoke.mono hwithin)
    (fun _ _ => rfl) ⟨A, free, hA, hfree, hfrees⟩ (Function.update_eq_self 0 s.threads).symm
    (fun _ ha => ha) ?_ ?_ ?_ h.once h.freed
  · intro a b hb
    refine Or.inr ⟨?_, hb⟩
    rintro rfl
    rw [(h.held 0 a _ hb).1] at hplaced
    cases hplaced
  · intro t' _
    rw [hplaced]
    exact XPlace.noConfusion
  · intro p size' hp'
    by_cases hne : p = ptr
    · subst hne
      obtain ⟨-, rfl⟩ := Prod.mk.inj (List.inj_on_of_nodup_map h.once hp' hp rfl)
      refine Or.inr ⟨⟨hown.raw, hpointer, hroom, ?_⟩, rfl⟩
      -- the byte is behind the header and before the footer
      refine (hown.roomy h).getBlockAllocator_frame hown.header rfl hpoke (Or.inl ?_) (Or.inr ?_)
      all_goals
        simp only [Extent.stop]
        omega
    · exact Or.inl ⟨hp', hpointer ▸ hne⟩

end Blocks

end XallocSystem

end AsyncSqlite
