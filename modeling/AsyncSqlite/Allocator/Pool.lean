import AsyncSqlite.Allocator.Blocks

/-!
# AsyncSqlite.Allocator.Pool — blocks of a caller's memory

The caller's memory has room for `objects` objects of `size` bytes, as the comment
on the constructor and `AllocatorPool` say. The blocks that are cut from it are at
least as large as a pointer. So they lie in it just when the objects do not make
the blocks larger (`inside_iff`).
-/

namespace AsyncSqlite

namespace AllocatorRun

variable {args : AllocatorArgs} {s : AllocatorRun} {p : ℕ}

/-- The memory that the caller has supplied. -/
def callerMemory (args : AllocatorArgs) (p : ℕ) : Extent := ⟨p, args.size * args.objects⟩

/-- Every block that a caller has lies in the caller's memory. -/
def InsideMemory (args : AllocatorArgs) (p : ℕ) (s : AllocatorRun) : Prop :=
  ∀ b ∈ s.handedOut, (s.extent b).Within (callerMemory args p)

theorem blockSize_of_le (h : args.target.pointer ≤ args.size) : args.blockSize = args.size :=
  if_neg (not_lt.mpr h)

theorem blockSize_of_lt (h : args.size < args.target.pointer) :
    args.blockSize = args.target.pointer :=
  if_pos h

/-! ## Objects of the size of a block -/

/-- Every run stays within the limits. -/
theorem withinLimits_of_le (hmem : args.memory = some p)
    (hplaced : p + args.size * args.objects < args.target.sizeT) (hobj : args.objects ≠ 0)
    (hsize : args.target.pointer ≤ args.size) (h : (allocatorLts args).Reachable s) :
    (allocatorLts args).ReachableWhen (WithinLimits args) s := by
  refine h.induct (P := (allocatorLts args).ReachableWhen (WithinLimits args)) ?_ ?_
  · intro s hs
    exact Lts.ReachableWhen.start hs
  · intro l s _ hg _ ih
    obtain ⟨free, hi⟩ := blockInv_of_reachable ih
    refine ih.next hg ?_
    cases l with
    | deallocate b => trivial
    | write b x c => trivial
    | allocate size fresh =>
      refine ⟨fun hhead _ => ?_, fun hzero => absurd hzero hobj⟩
      have hindex : s.allocator.poolIndex < s.allocator.maxObjects := by
        have hmax : s.allocator.maxObjects ≠ 0 := by
          rw [hi.maxObjects]
          exact hobj
        have := hg.2 hhead
        rwa [if_pos hmax] at this
      rw [hi.maxObjects] at hindex
      have hle : (s.allocator.poolIndex + 1) * args.size ≤ args.objects * args.size :=
        Nat.mul_le_mul_right _ hindex
      rw [hi.memory p hmem hobj, hi.blockSize, blockSize_of_le hsize]
      rw [Nat.mul_comm args.objects] at hle
      omega

theorem inside_of_le (hmem : args.memory = some p)
    (hplaced : p + args.size * args.objects < args.target.sizeT) (hobj : args.objects ≠ 0)
    (hsize : args.target.pointer ≤ args.size) (h : (allocatorLts args).Reachable s) :
    InsideMemory args p s := by
  obtain ⟨free, hi⟩ :=
    blockInv_of_reachable (withinLimits_of_le hmem hplaced hobj hsize h)
  intro b hb
  have htaken := hi.ledger.mem_iff.mp (List.mem_append_right free hb)
  have hmax : s.allocator.maxObjects ≠ 0 := by
    rw [hi.maxObjects]
    exact hobj
  rw [taken, if_pos hmax, hi.memory p hmem hobj, hi.blockSize, blockSize_of_le hsize] at htaken
  obtain ⟨i, hlt, rfl⟩ := List.mem_map.mp htaken
  have hindex := List.mem_range.mp hlt
  have hle : (i + 1) * args.size ≤ args.objects * args.size :=
    Nat.mul_le_mul_right _ (by have := hi.poolIndex; omega)
  rw [Nat.succ_mul, Nat.mul_comm args.objects] at hle
  simp only [extent, callerMemory, Extent.Within, Extent.stop, hi.blockSize, blockSize_of_le hsize]
  omega

/-! ## Smaller objects -/

/-- The block that follows those already taken can be handed out, and it starts where they end. -/
theorem next_block (hi : BlockInv args s []) (hmem : args.memory = some p) (hpos : 0 < p)
    (hobj : args.objects ≠ 0) (hindex : s.allocator.poolIndex < args.objects)
    (hlt : p + s.allocator.poolIndex * args.blockSize < args.target.sizeT) :
    guard args.target (.allocate 0 0) s ∧
      update args.target (.allocate 0 0) s = { s with
        allocator := { s.allocator with
          poolIndex := s.allocator.poolIndex + 1
          blocksInUse := s.allocator.blocksInUse + 1
          allocations := s.allocator.allocations + 1 }
        handedOut := s.handedOut ++ [p + s.allocator.poolIndex * args.blockSize] } := by
  rw [← hi.maxObjects] at hindex
  have hstart : p + s.allocator.poolIndex * args.blockSize =
      s.allocator.pool + s.allocator.poolIndex * s.allocator.blockSize := by
    rw [hi.memory p hmem hobj, hi.blockSize]
  refine ⟨⟨Nat.zero_le _, fun _ => ?_⟩, hi.update_pool hindex hstart (by omega) hlt⟩
  rw [if_pos (by rw [hi.maxObjects]; exact hobj)]
  exact hindex

/-- As long as the blocks fit, they can all be taken. -/
theorem exists_taken (hmem : args.memory = some p) (hpos : 0 < p)
    (hplaced : p + args.size * args.objects < args.target.sizeT) (hobj : args.objects ≠ 0)
    (k : ℕ) (hk : k * args.blockSize ≤ args.size * args.objects) :
    ∃ s, (allocatorLts args).ReachableWhen (WithinLimits args) s ∧ BlockInv args s [] ∧
      s.allocator.poolIndex = k := by
  -- one block after the other: the free list stays empty, as nothing is given back
  induction k with
  | zero =>
    have hinit : args.Placed 0 := by
      unfold AllocatorArgs.Placed
      rw [hmem]
      exact ⟨hpos, hplaced⟩
    exact ⟨_, .start ⟨fun _ => .byte 0, 0, hinit, rfl⟩, .initial hinit, rfl⟩
  | succ k ih =>
    have hstep := Nat.add_one_mul k args.blockSize
    obtain ⟨s, hs, hi, rfl⟩ := ih (by omega)
    have hle : args.size ≤ args.blockSize := by
      unfold AllocatorArgs.blockSize
      split <;> omega
    have hblock : 0 < args.blockSize := by
      have := hi.blockSize_pos.2
      rwa [hi.blockSize] at this
    have hindex : s.allocator.poolIndex < args.objects := by
      refine Nat.lt_of_mul_lt_mul_left (a := args.blockSize) ?_
      calc args.blockSize * s.allocator.poolIndex
          = s.allocator.poolIndex * args.blockSize := Nat.mul_comm _ _
        _ < args.size * args.objects := by omega
        _ ≤ args.blockSize * args.objects := Nat.mul_le_mul_right _ hle
    obtain ⟨hg, hupdate⟩ := next_block hi hmem hpos hobj hindex (by omega)
    have hok : WithinLimits args (.allocate 0 0) s := by
      refine ⟨fun _ _ => ?_, fun hzero => absurd hzero hobj⟩
      rw [hi.memory p hmem hobj, hi.blockSize]
      omega
    have hnext := hi.allocate_pool hobj hg hok
    refine ⟨_, hs.next (l := AllocatorCall.allocate 0 0) hg hok, hnext, ?_⟩
    show (update args.target (.allocate 0 0) s).allocator.poolIndex = _
    rw [hupdate]

/-- The first block that reaches beyond the memory is handed out. -/
theorem exists_outside_of_lt (hmem : args.memory = some p) (hpos : 0 < p)
    (hplaced : p + args.size * args.objects < args.target.sizeT) (hobj : args.objects ≠ 0)
    (hsize : args.size < args.target.pointer) :
    ∃ s, (allocatorLts args).Reachable s ∧ ¬ InsideMemory args p s := by
  have hblock := blockSize_of_lt hsize
  -- the blocks that fit are fewer than the objects, as a block is larger than an object
  obtain ⟨k, hk⟩ : ∃ k, k = args.size * args.objects / args.blockSize := ⟨_, rfl⟩
  have hpointer := args.target.pointer_pos
  have hfit : k * args.blockSize ≤ args.size * args.objects := by
    rw [hk]
    exact Nat.div_mul_le_self _ _
  have hover : args.size * args.objects < k * args.blockSize + args.blockSize := by
    rw [hk]
    exact Nat.lt_div_mul_add (by omega)
  obtain ⟨s, hs, hi, rfl⟩ := exists_taken hmem hpos hplaced hobj k hfit
  have hindex : s.allocator.poolIndex < args.objects := by
    refine Nat.lt_of_mul_lt_mul_left (a := args.blockSize) ?_
    calc args.blockSize * s.allocator.poolIndex
        = s.allocator.poolIndex * args.blockSize := Nat.mul_comm _ _
      _ ≤ args.size * args.objects := hfit
      _ < args.blockSize * args.objects :=
        Nat.mul_lt_mul_of_pos_right (by omega) (Nat.pos_of_ne_zero hobj)
  obtain ⟨hg, hupdate⟩ := next_block hi hmem hpos hobj hindex (by omega)
  refine ⟨_, hs.reachable.next (l := AllocatorCall.allocate 0 0) hg trivial, fun hinside => ?_⟩
  have hwithin := hinside (p + s.allocator.poolIndex * args.blockSize) (by
    show _ ∈ (update args.target (.allocate 0 0) s).handedOut
    rw [hupdate]
    exact List.mem_append_right _ (List.mem_singleton_self _))
  have hsame : ((update args.target (.allocate 0 0) s).extent
      (p + s.allocator.poolIndex * args.blockSize)).Within (callerMemory args p) := hwithin
  rw [hupdate] at hsame
  simp only [extent, callerMemory, Extent.Within, Extent.stop, hi.blockSize] at hsame
  omega

/-- Without a limit the blocks come from the heap. -/
theorem exists_outside_of_zero (hmem : args.memory = some p) (hpos : 0 < p)
    (hplaced : p + args.size * args.objects < args.target.sizeT) (hobj : args.objects = 0) :
    ∃ s, (allocatorLts args).Reachable s ∧ ¬ InsideMemory args p s := by
  have hinit : args.Placed 0 := by
    unfold AllocatorArgs.Placed
    rw [hmem]
    exact ⟨hpos, hplaced⟩
  have hi : BlockInv args (initial args (fun _ => .byte 0) 0) [] := .initial hinit
  have hblock := hi.blockSize_pos.2
  have hfits : args.blockSize < args.target.sizeT := by
    have := args.size_lt
    have := args.target.pointer_lt_sizeT
    unfold AllocatorArgs.blockSize
    split <;> omega
  have hmax : (initial args (fun _ => .byte 0) 0).allocator.maxObjects = 0 := by
    rw [hi.maxObjects]
    exact hobj
  have hg : guard args.target (.allocate 0 1) (initial args (fun _ => .byte 0) 0) := by
    refine ⟨Nat.zero_le _, fun _ => ?_⟩
    rw [if_neg (not_not.mpr hmax)]
    refine ⟨Nat.one_pos, ?_, fun b hb => absurd hb List.not_mem_nil⟩
    simp only [extent, Extent.stop, hi.blockSize]
    omega
  have hstart : (allocatorLts args).Reachable (initial args (fun _ => .byte 0) 0) :=
    .start ⟨fun _ => .byte 0, 0, hinit, rfl⟩
  refine ⟨_, hstart.next (l := AllocatorCall.allocate 0 1) hg trivial, fun hinside => ?_⟩
  change InsideMemory args p (update args.target (.allocate 0 1) _) at hinside
  rw [hi.update_heap hmax] at hinside
  have hwithin := hinside 1 (List.mem_append_right _ (List.mem_singleton_self 1))
  -- the memory has no bytes
  simp only [extent, callerMemory, Extent.Within, Extent.stop, hi.blockSize, hobj] at hwithin
  rw [hi.blockSize] at hblock
  omega

/-! ## Main result -/

/-- In every run every block lies in the memory that the caller has supplied, just
when it was supplied for objects that are at least as large as a pointer. -/
theorem inside_iff (hmem : args.memory = some p) (hpos : 0 < p)
    (hplaced : p + args.size * args.objects < args.target.sizeT) :
    (∀ s, (allocatorLts args).Reachable s → InsideMemory args p s) ↔
      args.objects ≠ 0 ∧ args.target.pointer ≤ args.size := by
  constructor
  · intro h
    have hobj : args.objects ≠ 0 := by
      intro hobj
      obtain ⟨s, hs, hout⟩ := exists_outside_of_zero hmem hpos hplaced hobj
      exact hout (h s hs)
    refine ⟨hobj, ?_⟩
    by_contra hlt
    obtain ⟨s, hs, hout⟩ := exists_outside_of_lt hmem hpos hplaced hobj (not_le.mp hlt)
    exact hout (h s hs)
  · rintro ⟨hobj, hsize⟩ s hs
    exact inside_of_le hmem hplaced hobj hsize hs

/-- Six objects of 16 bytes on a 64-bit machine. -/
def wideObjects : AllocatorArgs := ⟨.bits64, 16, 6, some 4096, by decide, by decide⟩

theorem inside_iff_wide :
    (∀ s, (allocatorLts wideObjects).Reachable s → InsideMemory wideObjects 4096 s) ↔
      wideObjects.objects ≠ 0 ∧ wideObjects.target.pointer ≤ wideObjects.size :=
  inside_iff rfl (by decide) (by decide)

/-- Four objects of a byte. -/
def narrowObjects : AllocatorArgs := ⟨.bits64, 1, 4, some 4096, by decide, by decide⟩

/-- The first block is twice as large as the memory that it is cut from. -/
theorem not_inside_narrow : ∃ s, (allocatorLts narrowObjects).Reachable s ∧
    s.handedOut = [4096] ∧ s.extent 4096 = ⟨4096, 8⟩ ∧
    callerMemory narrowObjects 4096 = ⟨4096, 4⟩ ∧ ¬ InsideMemory narrowObjects 4096 s := by
  obtain ⟨s, hs, hp⟩ := (allocatorLts narrowObjects).execWhen_reachable Lts.always
    ⟨fun _ => .byte 0, 0, ⟨by decide, by decide⟩, rfl⟩ [.allocate 1 0]
    (fun s => s.handedOut = [4096] ∧ s.extent 4096 = ⟨4096, 8⟩) (by decide +kernel)
  obtain ⟨hout, hextent⟩ := of_decide_eq_true hp
  refine ⟨s, hs, hout, hextent, rfl, fun h => ?_⟩
  have hwithin := h 4096 (by rw [hout]; exact List.mem_singleton_self _)
  rw [hextent] at hwithin
  exact absurd hwithin (by decide)

end AllocatorRun

end AsyncSqlite
