import AsyncSqlite.Allocator.Xallocator

/-!
# AsyncSqlite.Allocator.Capacity — the room that `xmalloc` gives

Whatever allocators are in the table, the block behind the pointer that `xmalloc`
returns is as large as the size that `xallocator_get_allocator` computes, or a
pointer (`Sound.xmalloc`). That is enough for what was asked just when the size
`Fits`; then `xrealloc` keeps the bytes too (`large_enough_iff`).
-/

namespace AsyncSqlite

namespace Xheap

variable {o : XallocOptions} {s s' : Xheap}

/-! ## States of the table -/

/-- The allocators in the table own the blocks on their lists, and the blocks that
came from the heap are ranges of addresses that do not overlap. -/
structure Sound (o : XallocOptions) (s : Xheap) : Prop where
  listed : ∀ a, some a ∈ s.table → ∃ A free, s.allocators a = some A ∧
    o.target.pointer ≤ A.blockSize ∧ A.Free o.target s.mem free ∧
    ∀ b ∈ free, ∃ r ∈ s.raw, r.start = b ∧ r.len = A.blockSize
  apart : s.raw.Pairwise RawBlock.Apart
  range : ∀ r ∈ s.raw, 0 < r.start ∧ 0 < r.len ∧ r.extent.stop ≤ o.target.sizeT

/-- `fresh` is an address for `len` bytes of the heap. -/
structure FreshBlock (o : XallocOptions) (s : Xheap) (fresh len : ℕ) : Prop where
  range : 0 < fresh ∧ fresh + len ≤ o.target.sizeT
  apart : ∀ r ∈ s.raw, r.extent.Apart ⟨fresh, len⟩

instance (o : XallocOptions) (s : Xheap) (fresh len : ℕ) : Decidable (FreshBlock o s fresh len) :=
  decidable_of_iff ((0 < fresh ∧ fresh + len ≤ o.target.sizeT) ∧
    ∀ r ∈ s.raw, r.extent.Apart ⟨fresh, len⟩) ⟨fun h => ⟨h.1, h.2⟩, fun h => ⟨h.range, h.apart⟩⟩

/-- The caller's pointer `p` has room for `size` bytes: its block has them with the
header and the footer, and its header names an allocator of that block size. -/
def LargeEnough (o : XallocOptions) (s : Xheap) (p size : ℕ) : Prop :=
  ∃ r ∈ s.raw, p = r.start + o.headerSize ∧ o.headerSize + size + o.footerSize ≤ r.len ∧
    ∃ a A, loadPointer o.target s.mem r.start = some a ∧ s.allocators a = some A ∧
      A.blockSize = r.len

/-- `old` is a pointer that a caller has, to the block `r` of the allocator `a`. -/
structure HasBlock (o : XallocOptions) (s : Xheap) (old : ℕ) (r : RawBlock) (a : ℕ) : Prop where
  mem : r ∈ s.raw
  pointer : old = r.start + o.headerSize
  len : s.getBlockSize a = r.len
  fits : o.headerSize + o.footerSize ≤ r.len
  /-- the header is as `set_block_allocator` left it -/
  header : s.getBlockAllocator o r.start = some a
  /-- the block is on no list -/
  out : ∀ b B free, some b ∈ s.table → s.allocators b = some B → B.Free o.target s.mem free →
    r.start ∉ free

/-! ## What `xmalloc` does -/

/-- The allocator that `xallocator_get_allocator` returns. -/
theorem Sound.getAllocator (h : Sound o s) {size fa a : ℕ} (hfresh : s.allocators fa = none)
    (hrun : s.xallocatorGetAllocator o size fa = some (a, s')) :
    s'.mem = s.mem ∧ s'.raw = s.raw ∧ (∀ b ≠ fa, s'.allocators b = s.allocators b) ∧
      ∃ A free, s'.allocators a = some A ∧
        A.blockSize = max (o.blockSize size) o.target.pointer ∧ A.Free o.target s.mem free ∧
        (∀ b ∈ free, some a ∈ s.table ∧ s.allocators a = some A) ∧
        ∀ b ∈ free, ∃ r ∈ s.raw, r.start = b ∧ r.len = A.blockSize := by
  unfold xallocatorGetAllocator at hrun
  -- the new allocator does not change what the table finds
  have hagain : (s.newAllocator o (o.blockSize size) fa).findAllocator (o.blockSize size) =
      s.findAllocator (o.blockSize size) := by
    refine findIn_congr fun b hb => ?_
    obtain ⟨B, -, hB, -⟩ := h.listed b hb
    have hne : b ≠ fa := by
      rintro rfl
      rw [hfresh] at hB
      cases hB
    unfold getBlockSize newAllocator
    rw [allocators_setAllocator_of_ne hne]
  cases hfind : s.findAllocator (o.blockSize size) with
  | some b =>
    simp only [hfind, Option.some.injEq, Prod.mk.injEq] at hrun
    obtain ⟨rfl, rfl⟩ := hrun
    obtain ⟨hmem, hsize⟩ := findIn_eq_some hfind
    obtain ⟨A, free, hA, hpointer, hfree, hraw⟩ := h.listed b hmem
    rw [getBlockSize_of hA] at hsize
    refine ⟨rfl, rfl, fun _ _ => rfl, A, free, hA, ?_, hfree, fun _ _ => ⟨hmem, hA⟩, hraw⟩
    omega
  | none =>
    simp only [hfind, hagain] at hrun
    obtain ⟨s₁, hins, heq⟩ := Option.map_eq_some_iff.mp hrun
    obtain ⟨rfl, rfl⟩ := Prod.mk.inj heq
    obtain ⟨table, -, rfl⟩ := insertAllocator_eq_some hins
    refine ⟨rfl, rfl, fun b hb => allocators_setAllocator_of_ne hb _, _, [],
      allocators_setAllocator_self .., blockSize_construct .., free_construct .., ?_, ?_⟩
    · exact fun b hb => absurd hb List.not_mem_nil
    · exact fun b hb => absurd hb List.not_mem_nil

/-- What `xmalloc` leaves: the block `r` of the allocator `a`, from a state `s₁`
in which the header was not written. -/
structure Allocated (o : XallocOptions) (s s' : Xheap) (size : ℕ) (p : Option ℕ) (r : RawBlock)
    (a : ℕ) (s₁ : Xheap) : Prop where
  pointer : p = o.target.address (r.start + o.headerSize)
  final : s' = s₁.setBlockAllocator o r.start a
  mem : s₁.mem = s.mem
  raw : r ∈ s₁.raw
  old : ∀ r' ∈ s.raw, r' ∈ s₁.raw
  apart : s₁.raw.Pairwise RawBlock.Apart
  range : ∀ r ∈ s₁.raw, 0 < r.start ∧ 0 < r.len ∧ r.extent.stop ≤ o.target.sizeT
  len : r.len = max (o.blockSize size) o.target.pointer
  blockSize : ∃ A, s₁.allocators a = some A ∧ A.blockSize = r.len
  /-- the allocators that there were have kept their block size -/
  others : ∀ b B, s.allocators b = some B → s₁.getBlockSize b = B.blockSize
  /-- a block that was there before was on a list -/
  free : r ∈ s.raw → ∃ b B free, some b ∈ s.table ∧ s.allocators b = some B ∧
    B.Free o.target s.mem free ∧ r.start ∈ free

theorem Sound.xmalloc (h : Sound o s) {size fa fb : ℕ} {p : Option ℕ}
    (hfa : s.allocators fa = none)
    (hfb : FreshBlock o s fb (max (o.blockSize size) o.target.pointer))
    (hrun : s.xmalloc o size fa fb = some (p, s')) : ∃ r a s₁, Allocated o s s' size p r a s₁ := by
  unfold Xheap.xmalloc at hrun
  obtain ⟨⟨a, s₀⟩, hget, hrest⟩ := Option.bind_eq_some_iff.mp hrun
  obtain ⟨hmem, hraw, hothers, A, free, hA, hsize, hfree, hlisted, hblocks⟩ :=
    h.getAllocator hfa hget
  have hlive {b : ℕ} {B : Allocator} (hB : s.allocators b = some B) :
      s₀.allocators b = some B := by
    rw [hothers b ?_, hB]
    rintro rfl
    rw [hfa] at hB
    cases hB
  -- a step that sets the allocator keeps all block sizes
  have hkeep {b : ℕ} {A' B : Allocator} {s₁ : Xheap}
      (hs₁ : s₁.allocators = Function.update s₀.allocators a (some A'))
      (hA' : A'.blockSize = A.blockSize) (hB : s.allocators b = some B) :
      s₁.getBlockSize b = B.blockSize := by
    by_cases hb : b = a
    · subst hb
      have hBA : B = A := Option.some.inj ((hlive hB).symm.trans hA)
      simp [getBlockSize, hs₁, hA', hBA]
    · simp [getBlockSize, hs₁, Function.update_of_ne hb, hlive hB]
  rw [← hmem] at hfree
  cases free with
  | cons b free =>
    obtain ⟨q, hpop, -⟩ := popBlock_cons hA hfree
    simp only [hpop, Option.pure_def, Option.some.injEq, Prod.mk.injEq] at hrest
    obtain ⟨rfl, rfl⟩ := hrest
    -- a block of the list, which has the block size of its allocator
    obtain ⟨r, hr, rfl, hlen⟩ := hblocks b List.mem_cons_self
    obtain ⟨hmemtable, hAs⟩ := hlisted r.start List.mem_cons_self
    refine ⟨r, a, _, rfl, rfl, hmem, hraw ▸ hr, fun r' hr' => hraw ▸ hr', hraw ▸ h.apart,
      fun r' hr' => h.range r' (hraw ▸ hr'), hlen.trans hsize, ⟨_, allocators_setAllocator_self ..,
      hlen.symm⟩, fun b B hB => hkeep rfl rfl hB, fun _ => ?_⟩
    rw [hmem] at hfree
    exact ⟨a, A, _, hmemtable, hAs, hfree, List.mem_cons_self⟩
  | nil =>
    have hpop := popBlock_nil hA hfree
    simp only [hpop, Option.pure_def, Option.some.injEq, Prod.mk.injEq] at hrest
    obtain ⟨rfl, rfl⟩ := hrest
    -- a new block, of the block size that `GetBlockSize` gives
    have hget : (s₀.setAllocator a (some A)).getBlockSize a = A.blockSize :=
      getBlockSize_of (allocators_setAllocator_self ..)
    have hpos := o.target.pointer_pos
    refine ⟨⟨fb, A.blockSize, a⟩, a,
      ((s₀.setAllocator a (some A)).newBlock a fb).accountNew a, rfl, rfl, hmem, ?_, ?_, ?_, ?_,
      hsize, ?_, ?_, ?_⟩
    · simp [newBlock, accountNew, setAllocator, ← hget]
    · intro r' hr'
      simp [newBlock, accountNew, setAllocator, hraw, hr']
    · show ((s₀.raw ++ [_]) : List RawBlock).Pairwise _
      rw [hget]
      refine List.pairwise_append.mpr ⟨hraw ▸ h.apart, List.pairwise_singleton _ _, ?_⟩
      intro r' hr' r hr
      rw [List.mem_singleton.mp hr]
      simpa only [RawBlock.Apart, RawBlock.extent, hsize] using hfb.apart r' (hraw ▸ hr')
    · intro r' hr'
      replace hr' : r' ∈ s₀.raw ++ [⟨fb, (s₀.setAllocator a (some A)).getBlockSize a, a⟩] := hr'
      rw [hget] at hr'
      rcases List.mem_append.mp hr' with hr' | hr'
      · exact h.range r' (hraw ▸ hr')
      · have := hfb.range
        rw [List.mem_singleton.mp hr']
        simp only [RawBlock.extent, Extent.stop, hsize]
        omega
    · exact ⟨A.accountAlloc true, by simp [accountNew, newBlock, setAllocator], rfl⟩
    · intro b B hB
      have hset : (((s₀.setAllocator a (some A)).newBlock a fb).accountNew a).allocators =
          Function.update s₀.allocators a (some (A.accountAlloc true)) := by
        simp [accountNew, newBlock, setAllocator]
      exact hkeep hset rfl hB
    · intro hr
      -- a new block was not there before
      have hap := hfb.apart _ hr
      simp only [Extent.Apart, Extent.stop, RawBlock.extent] at hap
      omega

/-! ## The room -/

theorem Allocated.roomy {size : ℕ} {p : Option ℕ} {r : RawBlock} {a : ℕ} {s₁ : Xheap}
    (h : Allocated o s s' size p r a s₁) (hfit : o.Fits size) : Roomy o s₁ r.start a := by
  obtain ⟨A, hA, hlen⟩ := h.blockSize
  have hblock := XallocOptions.blockSize_of_fits hfit
  have hmax := Nat.le_max_left (o.blockSize size) o.target.pointer
  have hlen' := h.len
  have hrange := h.range r h.raw
  refine ⟨?_, hrange.1, ?_⟩
  · rw [getBlockSize_of hA]
    omega
  · rw [getBlockSize_of hA, hlen]
    exact hrange.2.2

/-- The pointer that was returned is the one behind the header. -/
theorem Allocated.start_of_pointer {size p : ℕ} {r r' : RawBlock} {a : ℕ} {s₁ : Xheap}
    (h : Allocated o s s' size (some p) r a s₁) (hp : p = r'.start + o.headerSize) :
    r'.start = r.start := by
  have hpointer := h.pointer
  obtain ⟨hpos, hlen, hstop⟩ := h.range r h.raw
  have hsizes := o.sizes_le
  have hlarge := o.target.large
  simp only [Extent.stop, RawBlock.extent] at hstop
  rcases Nat.lt_or_ge (r.start + o.headerSize) o.target.sizeT with hlt | hge
  · rw [Target.address_of_lt (by omega) hlt] at hpointer
    have hval := Option.some.inj hpointer
    omega
  · -- behind the last address it would be a small number
    have hmod : (r.start + o.headerSize) % o.target.sizeT =
        r.start + o.headerSize - o.target.sizeT := by
      rw [Nat.mod_eq_sub_mod hge]
      exact Nat.mod_eq_of_lt (by omega)
    unfold Target.address at hpointer
    split at hpointer
    · cases hpointer
    · have hval := Option.some.inj hpointer
      rw [hmod] at hval
      omega

/-- A block with the room that was asked for shows that the size fits. -/
theorem Allocated.fits_of_large {size p : ℕ} {r r' : RawBlock} {a : ℕ} {s₁ : Xheap}
    (h : Allocated o s s' size (some p) r a s₁) (hsize : size < o.target.sizeT)
    (hr' : r' ∈ s₁.raw) (hp : p = r'.start + o.headerSize)
    (hle : o.headerSize + size + o.footerSize ≤ r'.len) : o.Fits size := by
  have hstart := h.start_of_pointer hp
  obtain rfl := RawBlock.eq_of_start h.apart (fun r hr => (h.range r hr).2.1) hr' h.raw hstart
  rw [← XallocOptions.fits_iff hsize, ← h.len]
  omega

theorem Allocated.pointer_eq {size p : ℕ} {r : RawBlock} {a : ℕ} {s₁ : Xheap}
    (h : Allocated o s s' size (some p) r a s₁) (hfit : o.Fits size) :
    p = r.start + o.headerSize := by
  have hroomy := h.roomy hfit
  have hle := hroomy.fits
  have hrange := hroomy.range
  have hpointer := h.pointer
  have hlt : r.start + o.headerSize < o.target.sizeT := by
    by_contra hge
    -- at the end of the addresses the pointer would be null
    have hend : r.start + o.headerSize = o.target.sizeT := by
      omega
    rw [hend] at hpointer
    simp [Target.address] at hpointer
  rw [Target.address_of_lt (by omega) hlt] at hpointer
  exact Option.some.inj hpointer

theorem Allocated.len_of_fits {size : ℕ} {p : Option ℕ} {r : RawBlock} {a : ℕ} {s₁ : Xheap}
    (h : Allocated o s s' size p r a s₁) (hfit : o.Fits size) :
    o.headerSize + size + o.footerSize ≤ r.len := by
  have hblock := XallocOptions.blockSize_of_fits hfit
  have hlen := h.len
  omega

theorem Allocated.largeEnough {size p : ℕ} {r : RawBlock} {a : ℕ} {s₁ : Xheap}
    (h : Allocated o s s' size (some p) r a s₁) (hfit : o.Fits size) :
    LargeEnough o s' p size := by
  obtain ⟨A, hA, hlen⟩ := h.blockSize
  have hloaded := (h.roomy hfit).loadPointer_set
  rw [← h.final] at hloaded
  refine ⟨r, ?_, h.pointer_eq hfit, h.len_of_fits hfit, a, A, hloaded, ?_, hlen⟩
  · rw [h.final]
    exact h.raw
  · rw [h.final]
    exact hA

/-! ## What `xrealloc` does -/

theorem xfree_eq_some {ptr : ℕ} (hrun : s.xfree o (some ptr) = some s') :
    ∃ a, s.getBlockAllocator o (getBlockPtr o ptr) = some a ∧
      s' = (s.markFreed o (getBlockPtr o ptr)).deallocate o a (getBlockPtr o ptr) := by
  obtain ⟨a, ha, hrest⟩ := Option.bind_eq_some_iff.mp hrun
  exact ⟨a, ha, (Option.some.inj hrest).symm⟩

theorem HasBlock.roomy {old a : ℕ} {r : RawBlock} (h : HasBlock o s old r a) (hs : Sound o s) :
    Roomy o s r.start a := by
  obtain ⟨hpos, -, hstop⟩ := hs.range r h.mem
  simp only [Extent.stop, RawBlock.extent] at hstop
  have hlen := h.len
  have hfits := h.fits
  refine ⟨?_, hpos, ?_⟩ <;> omega

/-- The block that `xmalloc` takes is not the caller's. -/
theorem Allocated.apart_old {size old a a₀ : ℕ} {p : Option ℕ} {r r₀ : RawBlock} {s₁ : Xheap}
    (h : Allocated o s s' size p r a s₁) (hold : HasBlock o s old r₀ a₀) : r₀.Apart r := by
  have hne : r₀ ≠ r := by
    rintro rfl
    obtain ⟨b, B, free, hb, hB, hfree, hmem⟩ := h.free hold.mem
    exact hold.out b B free hb hB hfree hmem
  exact h.apart.forall (h.old r₀ hold.mem) h.raw hne

/-- `xmalloc` writes to the block that it takes. -/
theorem Allocated.changesOnly {size a : ℕ} {p : Option ℕ} {r : RawBlock} {s₁ : Xheap}
    (h : Allocated o s s' size p r a s₁) (hfit : o.Fits size) :
    Memory.ChangesOnly r.extent s.mem s'.mem := by
  obtain ⟨A, hA, hlen⟩ := h.blockSize
  have hset := (h.roomy hfit).changesOnly_set
  rwa [← h.final, h.mem, getBlockSize_of hA, hlen] at hset

/-- `xmalloc` keeps the block sizes of the allocators that there were. -/
theorem Allocated.getBlockSize {size a b : ℕ} {p : Option ℕ} {r : RawBlock} {s₁ : Xheap}
    (h : Allocated o s s' size p r a s₁) (hb : 0 < s.getBlockSize b) :
    s'.getBlockSize b = s.getBlockSize b := by
  obtain ⟨B, hB, hlen⟩ := exists_of_getBlockSize hb
  rw [← hlen, h.final]
  exact h.others b B hB

/-- A pointer is returned when `xmalloc` gave it and the old block could be freed. -/
theorem xrealloc_eq_some {old size fa fb p : ℕ}
    (hrun : s.xrealloc o (some old) size fa fb = some (some p, s')) :
    ∃ t a, s.xmalloc o size fa fb = some (some p, t) ∧
      t.getBlockAllocator o (getBlockPtr o old) = some a ∧
      (t.memcpy p old (min (t.userSize o a) size)).xfree o (some old) = some s' := by
  simp only [Xheap.xrealloc] at hrun
  split at hrun
  · obtain ⟨t, -, hrest⟩ := Option.bind_eq_some_iff.mp hrun
    simp only [Option.pure_def, Option.some.injEq, Prod.mk.injEq] at hrest
    cases hrest.1
  · obtain ⟨⟨newMem, t⟩, hmalloc, hrest⟩ := Option.bind_eq_some_iff.mp hrun
    cases newMem with
    | none => cases hrest
    | some new =>
      obtain ⟨a, ha, hrest⟩ := Option.bind_eq_some_iff.mp hrest
      obtain ⟨t', hfree, hrest⟩ := Option.bind_eq_some_iff.mp hrest
      simp only [Option.pure_def, Option.some.injEq, Prod.mk.injEq] at hrest
      obtain ⟨rfl, rfl⟩ := hrest
      have hmin : (if t.userSize o a < size then t.userSize o a else size) =
          min (t.userSize o a) size := by
        split <;> omega
      rw [hmin] at hfree
      exact ⟨t, a, hmalloc, ha, hfree⟩

section Realloc

variable {size fa fb old p a a₀ : ℕ} {r r₀ : RawBlock} {s₁ t : Xheap}

/-- The header of the caller's block, behind `xmalloc`. -/
theorem Allocated.held (h : Allocated o s t size (some p) r a s₁) (hs : Sound o s)
    (hfit : o.Fits size) (hold : HasBlock o s old r₀ a₀) :
    t.getBlockSize a₀ = r₀.len ∧ t.getBlockAllocator o r₀.start = some a₀ := by
  have hroomy := hold.roomy hs
  have hsize : t.getBlockSize a₀ = s.getBlockSize a₀ := by
    have hheader := o.pointer_lt_headerSize
    have hfits := hroomy.fits
    exact h.getBlockSize (by omega)
  have hextent : (⟨r₀.start, s.getBlockSize a₀⟩ : Extent) = r₀.extent := by
    rw [hold.len]
    rfl
  refine ⟨hsize.trans hold.len, ?_⟩
  exact hroomy.getBlockAllocator_congr hold.header hsize (h.changesOnly hfit)
    (hextent ▸ h.apart_old hold)

/-- The room of the new block. -/
theorem Allocated.room_within (h : Allocated o s t size (some p) r a s₁) (hfit : o.Fits size) :
    (⟨p, size⟩ : Extent).Within r.extent := by
  have hp := h.pointer_eq hfit
  have hlen := h.len_of_fits hfit
  simp only [Extent.Within, Extent.stop, RawBlock.extent]
  omega

theorem changesOnly_memcpy (s : Xheap) (p old n size : ℕ) :
    Memory.ChangesOnly ⟨p, size⟩ s.mem (s.memcpy p old (min n size)).mem := by
  refine Memory.changesOnly_copy ?_
  simp only [Extent.Within, Extent.stop]
  omega

/-- With a size that fits, `xrealloc` copies what the old block has room for and frees
the old block. -/
theorem Allocated.xrealloc (h : Allocated o s t size (some p) r a s₁) (hs : Sound o s)
    (hfit : o.Fits size) (hold : HasBlock o s old r₀ a₀) {a₁ : ℕ}
    (hget : t.getBlockAllocator o (getBlockPtr o old) = some a₁)
    (hfree : (t.memcpy p old (min (t.userSize o a₁) size)).xfree o (some old) = some s') :
    s' = ((t.memcpy p old (min (r₀.len - o.headerSize - o.footerSize) size)).markFreed o
      r₀.start).deallocate o a₀ r₀.start := by
  obtain ⟨hsize, hheld⟩ := h.held hs hfit hold
  have hroomy : Roomy o t r₀.start a₀ := (hold.roomy hs).congr (hsize.trans hold.len.symm)
  have hptr : getBlockPtr o old = r₀.start := by
    rw [hold.pointer]
    exact hroomy.getBlockPtr
  rw [hptr, hheld] at hget
  obtain rfl := Option.some.inj hget
  have huser : t.userSize o a₀ = r₀.len - o.headerSize - o.footerSize := by
    have hfits := hroomy.fits
    have hrange := hroomy.range
    rw [userSize_of_le hfits (by omega), hsize]
  rw [huser] at hfree
  obtain ⟨a₂, hget₂, rfl⟩ := xfree_eq_some hfree
  have hextent : (⟨r₀.start, t.getBlockSize a₀⟩ : Extent) = r₀.extent := by
    rw [hsize]
    rfl
  -- the header is where it was
  have hheld₂ : (t.memcpy p old (min (r₀.len - o.headerSize - o.footerSize) size)).getBlockAllocator
      o r₀.start = some a₀ :=
    hroomy.getBlockAllocator_congr hheld rfl
      ((changesOnly_memcpy t p old _ size).mono (h.room_within hfit)) (hextent ▸ h.apart_old hold)
  rw [hptr, hheld₂] at hget₂
  obtain rfl := Option.some.inj hget₂
  rw [hptr]

/-- What the caller finds behind the pointer that `xrealloc` returns. -/
theorem Sound.xrealloc (hs : Sound o s) (hfa : s.allocators fa = none)
    (hfb : FreshBlock o s fb (max (o.blockSize size) o.target.pointer)) (hfit : o.Fits size)
    (hold : HasBlock o s old r₀ a₀)
    (hrun : s.xrealloc o (some old) size fa fb = some (some p, s')) :
    LargeEnough o s' p size ∧
      ∀ i < min (r₀.len - o.headerSize - o.footerSize) size, s'.mem (p + i) = s.mem (old + i) := by
  obtain ⟨t, a₁, hmalloc, hget, hfree⟩ := xrealloc_eq_some hrun
  obtain ⟨r, a, s₁, h⟩ := hs.xmalloc hfa hfb hmalloc
  obtain ⟨hsize, hheld⟩ := h.held hs hfit hold
  have heq := h.xrealloc hs hfit hold hget hfree
  have happart := h.apart_old hold
  have hp := h.pointer_eq hfit
  have hlen := h.len_of_fits hfit
  have hheader := o.pointer_lt_headerSize
  have hroomy : Roomy o t r₀.start a₀ := (hold.roomy hs).congr (hsize.trans hold.len.symm)
  -- freeing writes to the old block
  have hfreed : Memory.ChangesOnly r₀.extent
      (t.memcpy p old (min (r₀.len - o.headerSize - o.footerSize) size)).mem s'.mem := by
    have hroomy' : Roomy o (t.memcpy p old (min (r₀.len - o.headerSize - o.footerSize) size))
        r₀.start a₀ := hroomy.congr rfl
    have hextent : (⟨r₀.start, t.getBlockSize a₀⟩ : Extent) = r₀.extent := by
      rw [hsize]
      rfl
    rw [heq, ← hextent]
    exact hroomy'.changesOnly_free
  constructor
  · obtain ⟨A, hA, hblock⟩ := h.blockSize
    have hheadroom : Extent.Apart ⟨r.start, o.target.pointer⟩ ⟨p, size⟩ := by
      simp only [Extent.Apart, Extent.stop]
      omega
    have hheadold : Extent.Apart ⟨r.start, o.target.pointer⟩ r₀.extent := by
      refine happart.symm.mono ?_ ⟨Nat.le_refl _, Nat.le_refl _⟩
      simp only [Extent.Within, Extent.stop, RawBlock.extent]
      omega
    have hloaded : loadPointer o.target s'.mem r.start = some a := by
      have hset := (h.roomy hfit).loadPointer_set
      rw [← h.final] at hset
      rw [loadPointer, hfreed.load o.target.pointer_pos hheadold,
        (changesOnly_memcpy t p old _ size).load o.target.pointer_pos hheadroom]
      exact hset
    have hkept : s'.getBlockSize a = r.len := by
      rw [heq, getBlockSize_free]
      show t.getBlockSize a = r.len
      rw [h.final]
      exact (getBlockSize_of hA).trans hblock
    obtain ⟨A', hA', hlen'⟩ := exists_of_getBlockSize (s := s') (a := a) (by omega)
    refine ⟨r, ?_, hp, hlen, a, A', hloaded, hA', hlen'.trans hkept⟩
    rw [heq, raw_free]
    show r ∈ t.raw
    rw [h.final]
    exact h.raw
  · intro i hi
    have hnew : r.extent.start ≤ p + i ∧ p + i < r.extent.stop := by
      simp only [Extent.stop, RawBlock.extent]
      omega
    have hown : r₀.extent.start ≤ old + i ∧ old + i < r₀.extent.stop := by
      have := hold.pointer
      simp only [Extent.stop, RawBlock.extent]
      omega
    calc s'.mem (p + i)
        = (t.memcpy p old (min (r₀.len - o.headerSize - o.footerSize) size)).mem (p + i) :=
          hfreed.apply happart.symm hnew
      _ = t.mem (old + i) := Memory.copy_of_lt hi
      _ = s.mem (old + i) := (h.changesOnly hfit).apply happart hown

end Realloc

/-! ## Both calls -/

/-- `xmalloc` and `xrealloc` give the room that was asked for exactly when the size
fits. -/
theorem large_enough_iff (hs : Sound o s) {size fa fb : ℕ} (hsize : size < o.target.sizeT)
    (hfa : s.allocators fa = none)
    (hfb : FreshBlock o s fb (max (o.blockSize size) o.target.pointer)) :
    (∀ p s', s.xmalloc o size fa fb = some (some p, s') →
      (LargeEnough o s' p size ↔ o.Fits size)) ∧
    ∀ old r a p s', HasBlock o s old r a →
      s.xrealloc o (some old) size fa fb = some (some p, s') →
      ((LargeEnough o s' p size ∧
        ∀ i < min (r.len - o.headerSize - o.footerSize) size,
          s'.mem (p + i) = s.mem (old + i)) ↔ o.Fits size) := by
  refine ⟨fun p s' hrun => ?_, fun old r₀ a₀ p s' hold hrun => ?_⟩
  · obtain ⟨r, a, s₁, h⟩ := hs.xmalloc hfa hfb hrun
    refine ⟨?_, h.largeEnough⟩
    rintro ⟨r', hr', hp, hle, -⟩
    rw [h.final] at hr'
    exact h.fits_of_large hsize hr' hp hle
  · refine ⟨?_, fun hfit => hs.xrealloc hfa hfb hfit hold hrun⟩
    rintro ⟨⟨r', hr', hp, hle, -⟩, -⟩
    obtain ⟨t, a₁, hmalloc, -, hfree⟩ := xrealloc_eq_some hrun
    obtain ⟨r, a, s₁, h⟩ := hs.xmalloc hfa hfb hmalloc
    -- copying and freeing leave the blocks of the heap as they are
    obtain ⟨a₂, -, rfl⟩ := xfree_eq_some hfree
    rw [raw_free] at hr'
    replace hr' : r' ∈ t.raw := hr'
    rw [h.final] at hr'
    exact h.fits_of_large hsize hr' hp hle

theorem sound_fresh (o : XallocOptions) (m : HeapMemory) : Sound o (fresh o m) := by
  refine ⟨fun a ha => ?_, .nil, fun r hr => absurd hr List.not_mem_nil⟩
  cases List.eq_of_mem_replicate ha

def guardedOptions : XallocOptions := ⟨.bits64, true, 4⟩

/-- One caller has a block for 24 bytes. -/
def oneBlock : Xheap :=
  let start := fresh guardedOptions fun _ => .byte 0
  (start.xmalloc guardedOptions 24 1 4096).elim start (·.2)

theorem table_oneBlock : oneBlock.table = [some 1, none, none, none] := by
  decide +kernel

theorem raw_oneBlock : oneBlock.raw = [⟨4096, 64, 1⟩] := by
  decide +kernel

theorem allocators_oneBlock : oneBlock.allocators 1 =
    some ((Allocator.construct .bits64 64 0 none 0).accountAlloc true) := by
  decide +kernel

theorem sound_oneBlock : Sound guardedOptions oneBlock := by
  refine ⟨fun a ha => ?_, ?_, ?_⟩
  · obtain rfl : a = 1 := by
      simpa [table_oneBlock] using ha
    exact ⟨_, [], allocators_oneBlock, by decide, rfl, fun b hb => absurd hb List.not_mem_nil⟩
  · rw [raw_oneBlock]
    exact List.pairwise_singleton _ _
  · rw [raw_oneBlock]
    decide

theorem hasBlock_oneBlock : HasBlock guardedOptions oneBlock 4112 ⟨4096, 64, 1⟩ 1 := by
  refine ⟨by simp [raw_oneBlock], by decide, ?_, by decide, by decide +kernel, ?_⟩
  · exact getBlockSize_of allocators_oneBlock
  · intro b B free hb hB hfree
    obtain rfl : b = 1 := by
      simpa [table_oneBlock] using hb
    obtain rfl := Option.some.inj (allocators_oneBlock.symm.trans hB)
    -- its list is empty
    cases free with
    | nil => exact List.not_mem_nil
    | cons c free => cases hfree.1

theorem large_enough_iff_oneBlock : ∃ s',
    oneBlock.xrealloc guardedOptions (some 4112) 100 2 8192 = some (some 8208, s') ∧
    LargeEnough guardedOptions s' 8208 100 ∧
      ∀ i < 44, s'.mem (8208 + i) = oneBlock.mem (4112 + i) := by
  have hblock : FreshBlock guardedOptions oneBlock 8192
      (max (guardedOptions.blockSize 100) guardedOptions.target.pointer) := by
    refine ⟨by decide, ?_⟩
    rw [raw_oneBlock]
    decide
  have h := large_enough_iff sound_oneBlock (by decide : 100 < guardedOptions.target.sizeT)
    (by decide +kernel : oneBlock.allocators 2 = none) hblock
  have hrun : (oneBlock.xrealloc guardedOptions (some 4112) 100 2 8192).map (·.1) =
      some (some 8208) := by
    decide +kernel
  obtain ⟨⟨p, s'⟩, hrun, rfl⟩ := Option.map_eq_some_iff.mp hrun
  exact ⟨s', hrun, (h.2 4112 _ 1 8208 s' hasBlock_oneBlock hrun).mpr (by decide)⟩

def plainOptions : XallocOptions := ⟨.bits64, false, 4⟩

def plainHeap : Xheap := fresh plainOptions fun _ => .byte 0

/-- A request for all of `size_t` gives a block without room behind its header. -/
theorem not_large_enough : Sound plainOptions plainHeap ∧ ∃ s',
    plainHeap.xmalloc plainOptions (2 ^ 64 - 1) 1 4096 = some (some 4112, s') ∧
      ¬ LargeEnough plainOptions s' 4112 (2 ^ 64 - 1) := by
  have hrun : (plainHeap.xmalloc plainOptions (2 ^ 64 - 1) 1 4096).map
      (fun x => (x.1, x.2.raw)) = some (some 4112, [⟨4096, 16, 1⟩]) := by
    decide +kernel
  obtain ⟨⟨p, s'⟩, hrun, heq⟩ := Option.map_eq_some_iff.mp hrun
  obtain ⟨rfl, hraw⟩ := Prod.mk.inj heq
  refine ⟨sound_fresh plainOptions _, s', hrun, ?_⟩
  rintro ⟨r, hr, -, hle, -⟩
  replace hraw : s'.raw = [⟨4096, 16, 1⟩] := hraw
  rw [hraw, List.mem_singleton] at hr
  subst hr
  revert hle
  decide

end Xheap

end AsyncSqlite
