import AsyncSqlite.Allocator.Sizes

/-!
# AsyncSqlite.Allocator.Xallocator — `xmalloc`, `xfree` and `xrealloc`

`extras/allocator/xallocator.cpp` without static pools: a table of allocators, one
for every block size that was asked for, and in front of every block a header with
the allocator that the block goes back to.

Each critical section, and each piece of code between two of them, is a function of
its own (`findAllocator`, `popBlock` and so on); the calls are put together from
them, as calls that nobody disturbs.

* `Allocator` objects are kept by their address, apart from the bytes of blocks.
* `none` as the result of a call is a failed `ASSERT_TRUE`, after which the program
  does not go on.
* `freshAllocator` and `freshBlock` are what `new` gives, if it is asked.
-/

namespace AsyncSqlite

/-- A block that `new char[..]` has given, and for which allocator. -/
structure RawBlock where
  start : ℕ
  len : ℕ
  creator : ℕ
deriving DecidableEq, Repr

namespace RawBlock

def extent (r : RawBlock) : Extent := ⟨r.start, r.len⟩

def Apart (r r' : RawBlock) : Prop := r.extent.Apart r'.extent

instance : Std.Symm RawBlock.Apart := ⟨fun _ _ h => Extent.Apart.symm h⟩

/-- One block begins at an address. -/
theorem eq_of_start {l : List RawBlock} {r r' : RawBlock} (happart : l.Pairwise RawBlock.Apart)
    (hlen : ∀ r ∈ l, 0 < r.len) (hr : r ∈ l) (hr' : r' ∈ l) (h : r.start = r'.start) : r = r' := by
  by_contra hne
  have hap := happart.forall hr hr' hne
  have hpos := hlen r hr
  have hpos' := hlen r' hr'
  simp only [RawBlock.Apart, Extent.Apart, Extent.stop, RawBlock.extent] at hap
  omega

end RawBlock

/-- What all threads share. -/
structure Xheap where
  mem : HeapMemory
  /-- the `Allocator` objects -/
  allocators : ℕ → Option Allocator
  /-- `_allocators` -/
  table : List (Option ℕ)
  /-- the blocks that came from the heap -/
  raw : List RawBlock

def xallocMagic : UInt32 := 0x414C4C4F

def xallocFreed : UInt32 := 0xDEADBEEF

def xallocCanary : UInt32 := 0xAA55AA55

namespace Xheap

variable (o : XallocOptions)

/-- No allocators yet, and any memory. -/
def fresh (m : HeapMemory) : Xheap where
  mem := m
  allocators _ := none
  table := List.replicate o.maxAllocators none
  raw := []

/-! ## The table -/

/-- `a->GetBlockSize()` -/
def getBlockSize (s : Xheap) (a : ℕ) : ℕ := (s.allocators a).elim 0 (·.blockSize)

/-- The loop of `find_allocator`. -/
def findIn (s : Xheap) (size : ℕ) : List (Option ℕ) → Option ℕ
  | [] => none
  | none :: _ => none
  | some a :: slots => if s.getBlockSize a = size then some a else findIn s size slots

/-- `find_allocator` -/
def findAllocator (s : Xheap) (size : ℕ) : Option ℕ := s.findIn size s.table

/-- The loop of `insert_allocator`. -/
def insertIn (a : ℕ) : List (Option ℕ) → Option (List (Option ℕ))
  | [] => none
  | none :: slots => some (some a :: slots)
  | some b :: slots => (insertIn a slots).map (some b :: ·)

/-- `insert_allocator`; `none` when the table is full. -/
def insertAllocator (s : Xheap) (a : ℕ) : Option Xheap :=
  (insertIn a s.table).map fun table => { s with table := table }

def setAllocator (s : Xheap) (a : ℕ) (A : Option Allocator) : Xheap :=
  { s with allocators := Function.update s.allocators a A }

/-- `new Allocator(blockSize, 0, 0, "xallocator")` -/
def newAllocator (s : Xheap) (blockSize fresh : ℕ) : Xheap :=
  s.setAllocator fresh (some (.construct o.target blockSize 0 none 0))

/-- `delete allocator`, of an allocator without blocks -/
def deleteAllocator (s : Xheap) (a : ℕ) : Xheap := s.setAllocator a none

/-! ## Blocks -/

/-- `Pop`, with `AccountAlloc(false)` -/
def popBlock (s : Xheap) (a : ℕ) : Option ℕ × Xheap :=
  match s.allocators a with
  | none => (none, s)
  | some A =>
    match A.pop o.target s.mem with
    | (some b, A) => (some b, s.setAllocator a (some (A.accountAlloc false)))
    | (none, A) => (none, s.setAllocator a (some A))

/-- `new char[blockSize]` -/
def newBlock (s : Xheap) (a fresh : ℕ) : Xheap :=
  { s with raw := s.raw ++ [⟨fresh, s.getBlockSize a, a⟩] }

/-- `AccountAlloc(true)` -/
def accountNew (s : Xheap) (a : ℕ) : Xheap :=
  s.setAllocator a ((s.allocators a).map (·.accountAlloc true))

/-- `GetBlockSize() - BLOCK_HEADER_SIZE - BLOCK_FOOTER_SIZE`, in `size_t` -/
def userSize (s : Xheap) (a : ℕ) : ℕ :=
  (s.getBlockSize a + (o.target.sizeT - o.headerSize) + (o.target.sizeT - o.footerSize)) %
    o.target.sizeT

/-- `&pHeader->magic` -/
def magicAt (block : ℕ) : ℕ := (block + o.target.pointer) % o.target.sizeT

/-- `&pHeader->canary` -/
def canaryAt (block : ℕ) : ℕ := (block + o.target.pointer + 4) % o.target.sizeT

/-- `pFooter`, of a block of the allocator `a` -/
def footerAt (s : Xheap) (block a : ℕ) : ℕ :=
  (block + o.headerSize + s.userSize o a) % o.target.sizeT

/-- `set_block_allocator` -/
def setBlockAllocator (s : Xheap) (block a : ℕ) : Xheap :=
  let m := s.mem.store o.target.pointer block (.pointer (some a))
  { s with
    mem :=
      if o.safeguards then
        ((m.store 4 (magicAt o block) (.word xallocMagic)).store 4
          (canaryAt o block) (.word xallocCanary)).store 4
          (s.footerAt o block a) (.word xallocCanary)
      else m }

/-- The words of the safeguards are in place. -/
def Guarded (s : Xheap) (block a : ℕ) : Prop :=
  s.mem.load 4 (magicAt o block) = some (.word xallocMagic) ∧
    s.mem.load 4 (canaryAt o block) = some (.word xallocCanary) ∧
    s.mem.load 4 (s.footerAt o block a) = some (.word xallocCanary)

instance (s : Xheap) (block a : ℕ) : Decidable (s.Guarded o block a) :=
  inferInstanceAs (Decidable (_ ∧ _))

/-- `get_block_allocator`, of a block by its own address -/
def getBlockAllocator (s : Xheap) (block : ℕ) : Option ℕ :=
  match loadPointer o.target s.mem block with
  | none => none
  | some a => if o.safeguards = true → s.Guarded o block a then some a else none

/-- `get_block_ptr` -/
def getBlockPtr (ptr : ℕ) : ℕ := (ptr + (o.target.sizeT - o.headerSize)) % o.target.sizeT

/-- `pHeader->magic = XALLOC_FREED` -/
def markFreed (s : Xheap) (block : ℕ) : Xheap :=
  if o.safeguards then
    { s with mem := s.mem.store 4 (magicAt o block) (.word xallocFreed) }
  else s

/-- `allocator->Deallocate(blockPtr)` -/
def deallocate (s : Xheap) (a block : ℕ) : Xheap :=
  match s.allocators a with
  | none => s
  | some A =>
    let (m, A) := A.deallocate o.target s.mem block
    { s with mem := m }.setAllocator a (some A)

/-- `memcpy` -/
def memcpy (s : Xheap) (dst src n : ℕ) : Xheap := { s with mem := s.mem.copy n dst src }

/-! ## The calls -/

/-- `xallocator_get_allocator` -/
def xallocatorGetAllocator (s : Xheap) (size freshAllocator : ℕ) : Option (ℕ × Xheap) :=
  let blockSize := o.blockSize size
  match s.findAllocator blockSize with
  | some allocator => some (allocator, s)
  | none =>
    let s := s.newAllocator o blockSize freshAllocator
    match s.findAllocator blockSize with
    | some existing =>
      some (existing, if existing ≠ freshAllocator then s.deleteAllocator freshAllocator else s)
    | none => (s.insertAllocator freshAllocator).map (freshAllocator, ·)

/-- `xmalloc` -/
def xmalloc (s : Xheap) (size freshAllocator freshBlock : ℕ) : Option (Option ℕ × Xheap) := do
  let (allocator, s) ← s.xallocatorGetAllocator o size freshAllocator
  match s.popBlock o allocator with
  | (some block, s) =>
    return (o.target.address (block + o.headerSize), s.setBlockAllocator o block allocator)
  | (none, s) =>
    let s := (s.newBlock allocator freshBlock).accountNew allocator
    return (o.target.address (freshBlock + o.headerSize),
      s.setBlockAllocator o freshBlock allocator)

/-- `xfree` -/
def xfree (s : Xheap) : Option ℕ → Option Xheap
  | none => some s
  | some ptr => do
    let block := getBlockPtr o ptr
    let allocator ← s.getBlockAllocator o block
    return (s.markFreed o block).deallocate o allocator block

/-- `xrealloc` -/
def xrealloc (s : Xheap) (oldMem : Option ℕ) (size freshAllocator freshBlock : ℕ) :
    Option (Option ℕ × Xheap) :=
  match oldMem with
  | none => s.xmalloc o size freshAllocator freshBlock
  | some old =>
    if size = 0 then do
      let s ← s.xfree o (some old)
      return (none, s)
    else do
      let (newMem, s) ← s.xmalloc o size freshAllocator freshBlock
      match newMem with
      | none => return (none, s)
      | some new =>
        let oldAllocator ← s.getBlockAllocator o (getBlockPtr o old)
        let oldSize := s.userSize o oldAllocator
        let s := s.memcpy new old (if oldSize < size then oldSize else size)
        let s ← s.xfree o (some old)
        return (some new, s)

/-! ## What the sections do -/

section Sections

variable {o : XallocOptions} {s s' s'' : Xheap} {a b block size : ℕ} {A : Allocator}

@[simp] theorem allocators_setAllocator_self (s : Xheap) (a : ℕ) (A : Option Allocator) :
    (s.setAllocator a A).allocators a = A := Function.update_self ..

theorem allocators_setAllocator_of_ne (h : b ≠ a) (A : Option Allocator) :
    (s.setAllocator a A).allocators b = s.allocators b := Function.update_of_ne h ..

/-- An allocator with blocks of some size exists. -/
theorem exists_of_getBlockSize (h : 0 < s.getBlockSize a) :
    ∃ A, s.allocators a = some A ∧ A.blockSize = s.getBlockSize a := by
  unfold getBlockSize at h ⊢
  cases hA : s.allocators a with
  | none =>
    rw [hA] at h
    exact absurd h (Nat.lt_irrefl 0)
  | some A => exact ⟨A, rfl, rfl⟩

theorem getBlockSize_of (h : s.allocators a = some A) : s.getBlockSize a = A.blockSize := by
  simp [getBlockSize, h]

theorem findIn_congr {slots : List (Option ℕ)}
    (h : ∀ a, some a ∈ slots → s'.getBlockSize a = s.getBlockSize a) :
    s'.findIn size slots = s.findIn size slots := by
  induction slots with
  | nil => rfl
  | cons slot slots ih =>
    cases slot with
    | none => rfl
    | some a =>
      simp only [findIn, h a List.mem_cons_self]
      rw [ih fun b hb => h b (List.mem_cons_of_mem _ hb)]

theorem findIn_eq_some {slots : List (Option ℕ)} (h : s.findIn size slots = some a) :
    some a ∈ slots ∧ s.getBlockSize a = size := by
  induction slots with
  | nil => cases h
  | cons slot slots ih =>
    cases slot with
    | none => cases h
    | some b =>
      unfold findIn at h
      split at h
      · rename_i hb
        obtain rfl := Option.some.inj h
        exact ⟨List.mem_cons_self, hb⟩
      · obtain ⟨hmem, hsize⟩ := ih h
        exact ⟨List.mem_cons_of_mem _ hmem, hsize⟩

/-- `insert_allocator` changes the table alone. -/
theorem insertAllocator_eq_some (h : s.insertAllocator a = some s') :
    ∃ table, insertIn a s.table = some table ∧ s' = { s with table := table } := by
  obtain ⟨table, htable, rfl⟩ := Option.map_eq_some_iff.mp h
  exact ⟨table, htable, rfl⟩

/-- The block sizes of allocators are rounded up to that of a pointer. -/
theorem blockSize_construct (T : Target) (size : ℕ) :
    (Allocator.construct T size 0 none 0).blockSize = max size T.pointer := by
  simp only [Allocator.construct]
  split <;> omega

theorem free_construct (T : Target) (m : HeapMemory) (size : ℕ) :
    (Allocator.construct T size 0 none 0).Free T m [] := rfl

theorem popBlock_nil (hA : s.allocators a = some A) (hfree : A.Free o.target s.mem []) :
    s.popBlock o a = (none, s.setAllocator a (some A)) := by
  simp [popBlock, hA, hfree.pop_nil]

theorem popBlock_cons {free : List ℕ} (hA : s.allocators a = some A)
    (hfree : A.Free o.target s.mem (b :: free)) :
    ∃ p, s.popBlock o a =
        (some b, s.setAllocator a (some (Allocator.accountAlloc { A with head := p } false))) ∧
      Allocator.Free o.target s.mem { A with head := p } free := by
  obtain ⟨p, hpop, hrest⟩ := hfree.pop_cons
  exact ⟨p, by simp [popBlock, hA, hpop], hrest⟩

/-- The room for the user, where the block is large enough for the header and the
footer. -/
theorem userSize_of_le (hle : o.headerSize + o.footerSize ≤ s.getBlockSize a)
    (hlt : s.getBlockSize a < o.target.sizeT) :
    s.userSize o a = s.getBlockSize a - o.headerSize - o.footerSize := by
  have hsizes := o.sizes_le
  have hlarge := o.target.large
  -- subtraction in `size_t` goes around twice
  have hsum : s.getBlockSize a + (o.target.sizeT - o.headerSize) +
      (o.target.sizeT - o.footerSize) =
      s.getBlockSize a - o.headerSize - o.footerSize + o.target.sizeT + o.target.sizeT := by
    omega
  unfold userSize
  rw [hsum, Nat.add_mod_right, Nat.add_mod_right]
  exact Nat.mod_eq_of_lt (by omega)

/-- A block that is large enough for its header and footer. -/
structure Roomy (o : XallocOptions) (s : Xheap) (block a : ℕ) : Prop where
  fits : o.headerSize + o.footerSize ≤ s.getBlockSize a
  range : 0 < block ∧ block + s.getBlockSize a ≤ o.target.sizeT

/-- Only the block size matters. -/
theorem Roomy.congr (h : Roomy o s block a) (hsize : s'.getBlockSize a = s.getBlockSize a) :
    Roomy o s' block a := by
  refine ⟨?_, ?_⟩
  · rw [hsize]
    exact h.fits
  · rw [hsize]
    exact h.range

theorem Roomy.userSize (h : Roomy o s block a) :
    o.headerSize + s.userSize o a + o.footerSize = s.getBlockSize a := by
  have hfits := h.fits
  have hrange := h.range
  rw [userSize_of_le hfits (by omega)]
  omega

/-- The words of the safeguards lie inside the block. -/
theorem Roomy.words (h : Roomy o s block a) (hguard : o.safeguards = true) :
    magicAt o block = block + o.target.pointer ∧
      canaryAt o block = block + o.target.pointer + 4 ∧
      s.footerAt o block a = block + o.headerSize + s.userSize o a := by
  have huser := h.userSize
  have hwords := o.pointer_add_le_headerSize hguard
  have hrange := h.range
  refine ⟨?_, ?_, ?_⟩
  all_goals
    apply Nat.mod_eq_of_lt
    omega

/-- The pointer that a caller has leads back to the block. -/
theorem Roomy.getBlockPtr (h : Roomy o s block a) :
    getBlockPtr o (block + o.headerSize) = block := by
  have hfits := h.fits
  have hrange := h.range
  have hheader := o.pointer_lt_headerSize
  have hsum : block + o.headerSize + (o.target.sizeT - o.headerSize) = block + o.target.sizeT := by
    omega
  unfold Xheap.getBlockPtr
  rw [hsum, Nat.add_mod_right]
  exact Nat.mod_eq_of_lt (by omega)

/-- `set_block_allocator` stays inside the block. -/
theorem Roomy.changesOnly_set (h : Roomy o s block a) :
    Memory.ChangesOnly ⟨block, s.getBlockSize a⟩ s.mem (s.setBlockAllocator o block a).mem := by
  have hfits := h.fits
  have huser := h.userSize
  have hheader := o.pointer_lt_headerSize
  have hpointer : Memory.ChangesOnly ⟨block, s.getBlockSize a⟩ s.mem
      (s.mem.store o.target.pointer block (.pointer (some a))) := by
    refine Memory.changesOnly_store ?_
    simp only [Extent.Within, Extent.stop]
    omega
  unfold setBlockAllocator
  split
  · rename_i hguard
    have hwords := o.pointer_add_le_headerSize hguard
    obtain ⟨hmagic, hcanary, hfooter⟩ := h.words hguard
    rw [hmagic, hcanary, hfooter]
    refine ((hpointer.trans (Memory.changesOnly_store ?_)).trans
      (Memory.changesOnly_store ?_)).trans (Memory.changesOnly_store ?_)
    all_goals
      simp only [Extent.Within, Extent.stop]
      omega
  · exact hpointer

/-- `set_block_allocator` puts the allocator where `get_block_allocator` looks. -/
theorem Roomy.loadPointer_set (h : Roomy o s block a) :
    loadPointer o.target (s.setBlockAllocator o block a).mem block = some a := by
  have huser := h.userSize
  have hheader := o.pointer_lt_headerSize
  have hpos := o.target.pointer_pos
  have hpointer : (s.mem.store o.target.pointer block (.pointer (some a))).load
      o.target.pointer block = some (.pointer (some a)) := Memory.load_store_self hpos
  have hload : (s.setBlockAllocator o block a).mem.load o.target.pointer block =
      some (.pointer (some a)) := by
    simp only [setBlockAllocator]
    split
    · rename_i hguard
      have hwords := o.pointer_add_le_headerSize hguard
      obtain ⟨hmagic, hcanary, hfooter⟩ := h.words hguard
      rw [hmagic, hcanary, hfooter, Memory.load_store_apart hpos, Memory.load_store_apart hpos,
        Memory.load_store_apart hpos, hpointer]
      all_goals
        simp only [Extent.Apart, Extent.stop]
        omega
    · exact hpointer
  rw [loadPointer, hload]

/-- The words of the safeguards are in place behind `set_block_allocator`. -/
theorem Roomy.guarded_set (h : Roomy o s block a) (hguard : o.safeguards = true) :
    (s.setBlockAllocator o block a).Guarded o block a := by
  have huser := h.userSize
  have hwords := o.pointer_add_le_headerSize hguard
  obtain ⟨hmagic, hcanary, hfooter⟩ := h.words hguard
  have hkept : (s.setBlockAllocator o block a).footerAt o block a = s.footerAt o block a := rfl
  unfold Guarded
  rw [hkept]
  simp only [setBlockAllocator, if_pos hguard, hmagic, hcanary, hfooter]
  refine ⟨?_, ?_, Memory.load_store_self (by decide)⟩
  · rw [Memory.load_store_apart (by decide), Memory.load_store_apart (by decide)]
    · exact Memory.load_store_self (by decide)
    all_goals
      simp only [Extent.Apart, Extent.stop]
      omega
  · rw [Memory.load_store_apart (by decide)]
    · exact Memory.load_store_self (by decide)
    simp only [Extent.Apart, Extent.stop]
    omega

theorem Roomy.getBlockAllocator_set (h : Roomy o s block a) :
    (s.setBlockAllocator o block a).getBlockAllocator o block = some a := by
  unfold getBlockAllocator
  rw [h.loadPointer_set]
  exact if_pos h.guarded_set

/-- What `get_block_allocator` finds depends on the header and the footer of the block,
and on the block size. -/
theorem Roomy.getBlockAllocator_frame (h : Roomy o s block a)
    (hget : s.getBlockAllocator o block = some a) (hsize : s'.getBlockSize a = s.getBlockSize a)
    {e : Extent} (he : Memory.ChangesOnly e s.mem s'.mem)
    (hheader : Extent.Apart ⟨block, o.headerSize⟩ e)
    (hfooter : Extent.Apart ⟨block + o.headerSize + s.userSize o a, o.footerSize⟩ e) :
    s'.getBlockAllocator o block = some a := by
  have hlt := o.pointer_lt_headerSize
  have hsame : s'.footerAt o block a = s.footerAt o block a := by
    unfold footerAt Xheap.userSize
    rw [hsize]
  have hload {k x : ℕ} (hk : 0 < k) (hx : Extent.Within ⟨x, k⟩ ⟨block, o.headerSize⟩) :
      s'.mem.load k x = s.mem.load k x :=
    he.load hk (hheader.mono hx ⟨Nat.le_refl _, Nat.le_refl _⟩)
  have hpointer : loadPointer o.target s'.mem block = loadPointer o.target s.mem block := by
    unfold loadPointer
    rw [hload o.target.pointer_pos]
    simp only [Extent.Within, Extent.stop]
    omega
  have hguarded : o.safeguards = true → (s'.Guarded o block a ↔ s.Guarded o block a) := by
    intro hguard
    have hwords := o.pointer_add_le_headerSize hguard
    obtain ⟨hmagic, hcanary, hfooterAt⟩ := h.words hguard
    -- three words: two of the header, one of the footer
    rw [hwords.2] at hfooter
    unfold Guarded
    rw [hsame, hmagic, hcanary, hfooterAt, hload (by decide), hload (by decide),
      he.load (by decide) hfooter]
    all_goals
      simp only [Extent.Within, Extent.stop]
      omega
  unfold getBlockAllocator at hget ⊢
  rw [hpointer]
  split at hget
  · cases hget
  · split at hget
    · rename_i hg
      -- the assertions hold as they did
      obtain rfl := Option.some.inj hget
      exact if_pos fun hguard => (hguarded hguard).mpr (hg hguard)
    · cases hget

/-- A change outside of the block. -/
theorem Roomy.getBlockAllocator_congr (h : Roomy o s block a)
    (hget : s.getBlockAllocator o block = some a) (hsize : s'.getBlockSize a = s.getBlockSize a)
    {e : Extent} (he : Memory.ChangesOnly e s.mem s'.mem)
    (happart : Extent.Apart ⟨block, s.getBlockSize a⟩ e) :
    s'.getBlockAllocator o block = some a := by
  have huser := h.userSize
  refine h.getBlockAllocator_frame hget hsize he ?_ ?_
  all_goals
    refine happart.mono ?_ ⟨Nat.le_refl _, Nat.le_refl _⟩
    simp only [Extent.Within, Extent.stop]
    omega

theorem Roomy.changesOnly_mark (h : Roomy o s block a) :
    Memory.ChangesOnly ⟨block, s.getBlockSize a⟩ s.mem (s.markFreed o block).mem := by
  have hfits := h.fits
  unfold markFreed
  split
  · rename_i hguard
    have hwords := o.pointer_add_le_headerSize hguard
    rw [(h.words hguard).1]
    refine Memory.changesOnly_store ?_
    simp only [Extent.Within, Extent.stop]
    omega
  · exact .refl _ _

/-- The link of the free list lies in the block. -/
theorem changesOnly_deallocate (hle : o.target.pointer ≤ s.getBlockSize a) :
    Memory.ChangesOnly ⟨block, s.getBlockSize a⟩ s.mem (s.deallocate o a block).mem := by
  unfold deallocate
  split
  · exact .refl _ _
  · refine Memory.changesOnly_store ?_
    simp only [Extent.Within, Extent.stop]
    omega

/-- `xfree` writes to the block that is freed. -/
theorem Roomy.changesOnly_free (h : Roomy o s block a) :
    Memory.ChangesOnly ⟨block, s.getBlockSize a⟩ s.mem
      ((s.markFreed o block).deallocate o a block).mem := by
  have hfits := h.fits
  have hheader := o.pointer_lt_headerSize
  have hsize : (s.markFreed o block).getBlockSize a = s.getBlockSize a := by
    unfold markFreed
    split <;> rfl
  have hlink : Memory.ChangesOnly ⟨block, (s.markFreed o block).getBlockSize a⟩
      (s.markFreed o block).mem ((s.markFreed o block).deallocate o a block).mem :=
    changesOnly_deallocate (by omega)
  rw [hsize] at hlink
  exact h.changesOnly_mark.trans hlink

/-- Freeing gives nothing back to the heap. -/
theorem raw_free (s : Xheap) (a block : ℕ) :
    ((s.markFreed o block).deallocate o a block).raw = s.raw := by
  have hmark : (s.markFreed o block).raw = s.raw := by
    unfold markFreed
    split <;> rfl
  unfold deallocate
  split
  · exact hmark
  · exact hmark

/-! ## Block sizes -/

/-- Neither the table nor a block size has changed. -/
structure SameTable (s s' : Xheap) : Prop where
  table : s'.table = s.table
  blockSize : ∀ a, (s'.allocators a).map (·.blockSize) = (s.allocators a).map (·.blockSize)

theorem SameTable.refl (s : Xheap) : SameTable s s := ⟨rfl, fun _ => rfl⟩

theorem SameTable.trans (h : SameTable s s') (h' : SameTable s' s'') : SameTable s s'' :=
  ⟨h'.table.trans h.table, fun a => (h'.blockSize a).trans (h.blockSize a)⟩

theorem SameTable.getBlockSize (h : SameTable s s') (a : ℕ) :
    s'.getBlockSize a = s.getBlockSize a := by
  have hmap := h.blockSize a
  unfold Xheap.getBlockSize
  cases hs : s.allocators a <;> cases hs' : s'.allocators a <;> simp_all

theorem SameTable.live (h : SameTable s s') (ha : s.allocators a ≠ none) :
    s'.allocators a ≠ none := by
  intro hnone
  have hmap := h.blockSize a
  rw [hnone, Option.map_none] at hmap
  exact ha (Option.map_eq_none_iff.mp hmap.symm)

theorem sameTable_set {A A' : Allocator} (hA : s.allocators a = some A)
    (hsize : A'.blockSize = A.blockSize) : SameTable s (s.setAllocator a (some A')) := by
  refine ⟨rfl, fun b => ?_⟩
  by_cases hb : b = a
  · subst hb
    rw [allocators_setAllocator_self, hA, Option.map_some, Option.map_some, hsize]
  · rw [allocators_setAllocator_of_ne hb]

theorem sameTable_pop (s : Xheap) (a : ℕ) : SameTable s (s.popBlock o a).2 := by
  unfold popBlock
  cases hA : s.allocators a with
  | none => exact .refl s
  | some A =>
    cases hhead : A.head with
    | none =>
      simp only [Allocator.pop, hhead]
      exact sameTable_set hA rfl
    | some b =>
      simp only [Allocator.pop, hhead]
      exact sameTable_set hA rfl

theorem sameTable_new (s : Xheap) (a fresh : ℕ) : SameTable s (s.newBlock a fresh) :=
  ⟨rfl, fun _ => rfl⟩

theorem sameTable_account (s : Xheap) (a : ℕ) : SameTable s (s.accountNew a) := by
  unfold accountNew
  cases hA : s.allocators a with
  | none =>
    refine ⟨rfl, fun b => ?_⟩
    by_cases hb : b = a
    · subst hb
      rw [allocators_setAllocator_self, hA, Option.map_none]
    · rw [allocators_setAllocator_of_ne hb]
  | some A => exact sameTable_set hA rfl

theorem sameTable_stamp (s : Xheap) (block a : ℕ) :
    SameTable s (s.setBlockAllocator o block a) :=
  ⟨rfl, fun _ => rfl⟩

theorem sameTable_mark (s : Xheap) (block : ℕ) : SameTable s (s.markFreed o block) := by
  unfold markFreed
  split
  · exact ⟨rfl, fun _ => rfl⟩
  · exact .refl s

theorem sameTable_deallocate (s : Xheap) (a block : ℕ) :
    SameTable s (s.deallocate o a block) := by
  unfold deallocate
  cases hA : s.allocators a with
  | none => exact .refl s
  | some A =>
    have hset : SameTable { s with mem := (A.deallocate o.target s.mem block).1 }
        ({ s with mem := (A.deallocate o.target s.mem block).1 }.setAllocator a
          (some (A.deallocate o.target s.mem block).2)) := sameTable_set hA rfl
    exact ⟨hset.table, hset.blockSize⟩

/-- Freeing keeps the block sizes. -/
theorem getBlockSize_free (s : Xheap) (a block b : ℕ) :
    ((s.markFreed o block).deallocate o a block).getBlockSize b = s.getBlockSize b :=
  ((sameTable_mark s block).trans (sameTable_deallocate _ a block)).getBlockSize b

end Sections

end Xheap

end AsyncSqlite
