import AsyncSqlite.Allocator.Model

/-!
# AsyncSqlite.Allocator.Blocks — every block has one owner

The blocks that were ever taken from the pool or from the heap are the ones on the
free list and the ones that callers have (`BlockInv.ledger`). They are apart as
long as the blocks of a pool do not reach beyond the last address, so no write of
a caller touches the list, and no block is given twice (`one_owner`).

`WithinLimits` is the condition. The product `m_blockSize * m_maxObjects`, from
which the size of a pool on the heap is computed, and the addresses of its blocks
wrap in `size_t`; `m_blocksInUse` has 32 bits.
-/

namespace AsyncSqlite

namespace AllocatorRun

variable {args : AllocatorArgs} {l : AllocatorCall} {s : AllocatorRun} {free : List ℕ}

/-- What an owner of a block can rely on. -/
structure OneOwner (args : AllocatorArgs) (s : AllocatorRun) : Prop where
  /-- the blocks that callers have and those on the free list do not overlap -/
  apart : ∃ free, s.allocator.Free args.target s.mem free ∧
    (free ++ s.handedOut).Pairwise fun a b => (s.extent a).Apart (s.extent b)
  /-- they are ranges of addresses, of the block size -/
  range : ∀ a ∈ s.handedOut, 0 < a ∧ (s.extent a).stop ≤ args.target.sizeT
  size : args.size ≤ s.allocator.blockSize ∧ 0 < s.allocator.blockSize
  /-- none of them is handed out twice -/
  once : s.handedOut.Nodup
  limit : args.objects ≠ 0 → s.handedOut.length ≤ args.objects
  inUse : s.allocator.blocksInUse.toNat = s.handedOut.length

/-! ## The invariant -/

/-- The blocks that were taken from the pool or from the heap. -/
def taken (s : AllocatorRun) : List ℕ :=
  if s.allocator.maxObjects ≠ 0 then
    (List.range s.allocator.poolIndex).map fun i => s.allocator.pool + i * s.allocator.blockSize
  else s.heap

structure BlockInv (args : AllocatorArgs) (s : AllocatorRun) (free : List ℕ) : Prop where
  list : s.allocator.Free args.target s.mem free
  ledger : (free ++ s.handedOut).Perm s.taken
  blockSize : s.allocator.blockSize = args.blockSize
  maxObjects : s.allocator.maxObjects = args.objects
  poolIndex : s.allocator.poolIndex ≤ args.objects
  memory : ∀ p, args.memory = some p → args.objects ≠ 0 → s.allocator.pool = p
  /-- the blocks of the pool end before the last address -/
  pool : args.objects ≠ 0 → 0 < s.allocator.pool ∧
    s.allocator.pool + s.allocator.poolIndex * s.allocator.blockSize ≤ args.target.sizeT
  heap : s.heap.Pairwise fun a b => (s.extent a).Apart (s.extent b)
  heapRange : ∀ a ∈ s.heap, 0 < a ∧ (s.extent a).stop ≤ args.target.sizeT
  inUse : s.allocator.blocksInUse = UInt32.ofNat s.handedOut.length
  count : s.handedOut.length < 2 ^ 32

theorem pointer_le_blockSize (args : AllocatorArgs) : args.target.pointer ≤ args.blockSize := by
  unfold AllocatorArgs.blockSize
  split <;> omega

theorem BlockInv.initial {m : HeapMemory} {heapPool : ℕ} (hp : args.Placed heapPool) :
    BlockInv args (initial args m heapPool) [] := by
  refine ⟨rfl, ?_, rfl, rfl, Nat.zero_le _, ?_, ?_, .nil, by simp [AllocatorRun.initial], rfl, ?_⟩
  · simp only [taken, AllocatorRun.initial, Allocator.construct]
    split <;> exact .refl _
  · intro p hmem hobj
    simp only [AllocatorRun.initial, Allocator.construct, if_pos hobj, hmem, Option.getD_some]
  · intro hobj
    simp only [AllocatorRun.initial, Allocator.construct, if_pos hobj, Nat.zero_mul, Nat.add_zero]
    unfold AllocatorArgs.Placed at hp
    cases hmem : args.memory with
    | none =>
      rw [hmem] at hp
      have := hp hobj
      simp only [Option.getD_none]
      omega
    | some p =>
      rw [hmem] at hp
      have : 0 < p ∧ p + args.size * args.objects < args.target.sizeT := hp
      simp only [Option.getD_some]
      omega
  · exact Nat.two_pow_pos 32

/-- All blocks that were taken are apart. -/
theorem BlockInv.taken_apart (h : BlockInv args s free) :
    s.taken.Pairwise fun a b => (s.extent a).Apart (s.extent b) := by
  unfold taken
  split
  · exact Extent.pairwise_apart_stride _ _ _
  · exact h.heap

theorem BlockInv.apart (h : BlockInv args s free) :
    (free ++ s.handedOut).Pairwise fun a b => (s.extent a).Apart (s.extent b) :=
  (h.ledger.pairwise_iff Extent.Apart.symm).mpr h.taken_apart

theorem BlockInv.range (h : BlockInv args s free) {a : ℕ} (ha : a ∈ s.taken) :
    0 < a ∧ (s.extent a).stop ≤ args.target.sizeT := by
  unfold taken at ha
  split at ha
  · rename_i hobj
    rw [h.maxObjects] at hobj
    obtain ⟨i, hi, rfl⟩ := List.mem_map.mp ha
    have hpool := h.pool hobj
    -- block `i` ends where block `i + 1` would begin
    have hle : (i + 1) * s.allocator.blockSize ≤
        s.allocator.poolIndex * s.allocator.blockSize :=
      Nat.mul_le_mul_right _ (List.mem_range.mp hi)
    rw [Nat.succ_mul] at hle
    simp only [extent, Extent.stop]
    omega
  · exact h.heapRange a ha

theorem BlockInv.blockSize_pos (h : BlockInv args s free) :
    args.target.pointer ≤ s.allocator.blockSize ∧ 0 < s.allocator.blockSize := by
  have hle := pointer_le_blockSize args
  have hpos := args.target.pointer_pos
  rw [h.blockSize]
  omega

/-- A block is as large as the pointer that the free list keeps in it. -/
theorem BlockInv.pointers_apart (h : BlockInv args s free) {a b : ℕ}
    (hab : (s.extent a).Apart (s.extent b)) :
    Extent.Apart ⟨a, args.target.pointer⟩ ⟨b, args.target.pointer⟩ := by
  have hle := h.blockSize_pos.1
  refine hab.mono ?_ ?_
  · simp only [Extent.Within, Extent.stop, extent]
    omega
  · simp only [Extent.Within, Extent.stop, extent]
    omega

theorem BlockInv.nodup (h : BlockInv args s free) : (free ++ s.handedOut).Nodup := by
  refine h.apart.imp fun {a b} hab => ?_
  rintro rfl
  have hpos := h.blockSize_pos.2
  simp only [Extent.Apart, Extent.stop, extent] at hab
  omega

/-- No more blocks are out than were taken from the pool. -/
theorem BlockInv.length_le (h : BlockInv args s free) (hobj : args.objects ≠ 0) :
    free.length + s.handedOut.length ≤ s.allocator.poolIndex := by
  have hlen := h.ledger.length_eq
  have hmax : s.allocator.maxObjects ≠ 0 := by
    rw [h.maxObjects]
    exact hobj
  rw [taken, if_pos hmax, List.length_map, List.length_range, List.length_append] at hlen
  omega

/-! ## The steps -/

/-- The blocks of the pool stay within the addresses, and the counter of a heap
allocator does not overflow. -/
def WithinLimits (args : AllocatorArgs) (l : AllocatorCall) (s : AllocatorRun) : Prop :=
  match l with
  | .allocate _ _ =>
    (s.allocator.head = none → args.objects ≠ 0 →
      s.allocator.pool + (s.allocator.poolIndex + 1) * s.allocator.blockSize ≤
        args.target.sizeT) ∧
      (args.objects = 0 → s.handedOut.length + 1 < 2 ^ 32)
  | _ => True

instance (args : AllocatorArgs) (l : AllocatorCall) (s : AllocatorRun) :
    Decidable (WithinLimits args l s) :=
  match l with
  | .allocate _ _ => inferInstanceAs (Decidable (_ ∧ _))
  | .deallocate _ | .write _ _ _ => isTrue trivial

theorem ofNat_succ (n : ℕ) : UInt32.ofNat n + 1 = UInt32.ofNat (n + 1) := by
  rw [UInt32.ofNat_add]
  rfl

/-- One more block is out. -/
theorem count_succ {size fresh : ℕ}
    (hok : WithinLimits args (.allocate size fresh) s)
    (hpool : args.objects ≠ 0 → s.handedOut.length < args.objects) :
    s.handedOut.length + 1 < 2 ^ 32 := by
  by_cases hobj : args.objects = 0
  · exact hok.2 hobj
  · have := hpool hobj
    have := args.objects_lt
    omega

/-- `Allocate` takes the first block of the free list. -/
theorem BlockInv.allocate_pop {b size fresh : ℕ} (h : BlockInv args s (b :: free))
    (hok : WithinLimits args (.allocate size fresh) s) :
    BlockInv args (update args.target (.allocate size fresh) s) free := by
  obtain ⟨p, hpop, hfree⟩ := h.list.pop_cons
  have hhead : s.allocator.head = some b := h.list.1
  have hlen : s.handedOut.length + 1 < 2 ^ 32 := by
    refine count_succ hok fun hobj => ?_
    have hle := h.length_le hobj
    rw [List.length_cons] at hle
    have := h.poolIndex
    omega
  have hupdate : update args.target (.allocate size fresh) s = { s with
      allocator := { s.allocator with
        head := p
        blocksInUse := s.allocator.blocksInUse + 1
        allocations := s.allocator.allocations + 1 }
      handedOut := s.handedOut ++ [b] } := by
    simp [update, Allocator.allocate, hpop, hhead]
  rw [hupdate]
  refine ⟨hfree, ?_, h.blockSize, h.maxObjects, h.poolIndex, h.memory, h.pool, h.heap,
    h.heapRange, ?_, ?_⟩
  · -- the block moves from the front of the one list to the end of the other
    have hmove : (free ++ (s.handedOut ++ [b])).Perm (b :: free ++ s.handedOut) := by
      rw [← List.append_assoc]
      exact List.perm_append_singleton b (free ++ s.handedOut)
    exact hmove.trans h.ledger
  · show s.allocator.blocksInUse + 1 = _
    rw [h.inUse, ofNat_succ, List.length_append, List.length_singleton]
  · simp only [List.length_append, List.length_singleton]
    exact hlen

/-- What `Allocate` does when it takes the next block of the pool. -/
theorem BlockInv.update_pool {size fresh b : ℕ} (h : BlockInv args s [])
    (hindex : s.allocator.poolIndex < s.allocator.maxObjects)
    (hb : b = s.allocator.pool + s.allocator.poolIndex * s.allocator.blockSize) (hpos : 0 < b)
    (hlt : b < args.target.sizeT) :
    update args.target (.allocate size fresh) s = { s with
      allocator := { s.allocator with
        poolIndex := s.allocator.poolIndex + 1
        blocksInUse := s.allocator.blocksInUse + 1
        allocations := s.allocator.allocations + 1 }
      handedOut := s.handedOut ++ [b] } := by
  have hmax : s.allocator.maxObjects ≠ 0 := by
    omega
  simp [update, Allocator.allocate, h.list.pop_nil, Allocator.newBlock, hmax, hindex, ← hb,
    Target.address_of_lt hpos hlt]

/-- `Allocate` takes the next block of the pool. -/
theorem BlockInv.allocate_pool {size fresh : ℕ} (h : BlockInv args s []) (hobj : args.objects ≠ 0)
    (hg : guard args.target (.allocate size fresh) s)
    (hok : WithinLimits args (.allocate size fresh) s) :
    BlockInv args (update args.target (.allocate size fresh) s) [] := by
  have hhead : s.allocator.head = none := h.list
  have hmax : s.allocator.maxObjects ≠ 0 := by
    rw [h.maxObjects]
    exact hobj
  have hindex : s.allocator.poolIndex < s.allocator.maxObjects := by
    have := hg.2 hhead
    rwa [if_pos hmax] at this
  -- the block that is taken ends within the addresses, so its address does not wrap
  have hlast := hok.1 hhead hobj
  have hpool := h.pool hobj
  have hlen : s.handedOut.length + 1 < 2 ^ 32 := by
    refine count_succ hok fun _ => ?_
    have hle := h.length_le hobj
    rw [List.length_nil] at hle
    rw [h.maxObjects] at hindex
    omega
  obtain ⟨b, hb⟩ : ∃ b, b = s.allocator.pool + s.allocator.poolIndex * s.allocator.blockSize :=
    ⟨_, rfl⟩
  have hlt : b < args.target.sizeT := by
    have := h.blockSize_pos.2
    rw [Nat.succ_mul] at hlast
    omega
  rw [h.update_pool hindex hb (by omega) hlt]
  refine ⟨h.list, ?_, h.blockSize, h.maxObjects, ?_, h.memory, ?_, h.heap, h.heapRange, ?_, ?_⟩
  · have hledger := h.ledger
    rw [taken, if_pos hmax] at hledger
    simp only [taken, if_pos hmax, List.range_succ, List.map_append, List.map_cons, List.map_nil,
      List.nil_append, ← hb]
    -- the pool gives its blocks in order, so the new one is the last
    exact hledger.append_right [b]
  · show s.allocator.poolIndex + 1 ≤ args.objects
    rw [h.maxObjects] at hindex
    exact hindex
  · intro _
    exact ⟨hpool.1, hlast⟩
  · show s.allocator.blocksInUse + 1 = _
    rw [h.inUse, ofNat_succ, List.length_append, List.length_singleton]
  · simp only [List.length_append, List.length_singleton]
    exact hlen

/-- What `Allocate` does when it takes a new block from the heap. -/
theorem BlockInv.update_heap {size fresh : ℕ} (h : BlockInv args s [])
    (hmax : s.allocator.maxObjects = 0) :
    update args.target (.allocate size fresh) s = { s with
      allocator := { s.allocator with
        blockCnt := s.allocator.blockCnt + 1
        blocksInUse := s.allocator.blocksInUse + 1
        allocations := s.allocator.allocations + 1 }
      handedOut := s.handedOut ++ [fresh]
      heap := s.heap ++ [fresh] } := by
  have hhead : s.allocator.head = none := h.list
  simp [update, Allocator.allocate, h.list.pop_nil, Allocator.newBlock, hmax, hhead]

/-- `Allocate` takes a new block from the heap. -/
theorem BlockInv.allocate_heap {size fresh : ℕ} (h : BlockInv args s []) (hobj : args.objects = 0)
    (hg : guard args.target (.allocate size fresh) s)
    (hok : WithinLimits args (.allocate size fresh) s) :
    BlockInv args (update args.target (.allocate size fresh) s) [] := by
  have hhead : s.allocator.head = none := h.list
  have hmax : s.allocator.maxObjects = 0 := by
    rw [h.maxObjects]
    exact hobj
  -- `new` gives memory that no block of the heap occupies
  obtain ⟨hpos, hstop, hfresh⟩ : 0 < fresh ∧ (s.extent fresh).stop ≤ args.target.sizeT ∧
      ∀ b ∈ s.heap, (s.extent b).Apart (s.extent fresh) := by
    have := hg.2 hhead
    rwa [if_neg (not_not.mpr hmax)] at this
  rw [h.update_heap hmax]
  refine ⟨h.list, ?_, h.blockSize, h.maxObjects, h.poolIndex, h.memory, ?_, ?_, ?_, ?_, ?_⟩
  · have hledger := h.ledger
    rw [taken, if_neg (not_not.mpr hmax)] at hledger
    simp only [taken, hmax, ne_eq, not_true_eq_false, if_false, List.nil_append]
    exact hledger.append_right [fresh]
  · exact fun hne => absurd hobj hne
  · refine List.pairwise_append.mpr ⟨h.heap, List.pairwise_singleton _ _, ?_⟩
    intro a ha b hb
    rw [List.mem_singleton.mp hb]
    exact hfresh a ha
  · intro a ha
    rcases List.mem_append.mp ha with ha | ha
    · exact h.heapRange a ha
    · rw [List.mem_singleton.mp ha]
      exact ⟨hpos, hstop⟩
  · show s.allocator.blocksInUse + 1 = _
    rw [h.inUse, ofNat_succ, List.length_append, List.length_singleton]
  · simp only [List.length_append, List.length_singleton]
    exact hok.2 hobj

/-- `Deallocate` puts the block in front of the free list. -/
theorem BlockInv.deallocate {b : ℕ} (h : BlockInv args s free) (hb : b ∈ s.handedOut) :
    BlockInv args (update args.target (.deallocate b) s) (b :: free) := by
  have hlen : (s.handedOut.erase b).length + 1 = s.handedOut.length :=
    List.length_erase_add_one hb
  have happart := List.pairwise_append.mp h.apart
  refine ⟨?_, ?_, h.blockSize, h.maxObjects, h.poolIndex, h.memory, h.pool, h.heap,
    h.heapRange, ?_, ?_⟩
  · refine Allocator.Free.push h.list fun a ha => ?_
    exact h.pointers_apart (happart.2.2 a ha b hb).symm
  · -- the block moves back to the front of the free list
    have hmove : (b :: free ++ s.handedOut.erase b).Perm (free ++ s.handedOut) :=
      List.perm_middle.symm.trans ((List.perm_cons_erase hb).symm.append_left free)
    exact hmove.trans h.ledger
  · show s.allocator.blocksInUse - 1 = UInt32.ofNat (s.handedOut.erase b).length
    -- no underflow: the block that comes back was counted
    rw [h.inUse, ← hlen, ← ofNat_succ, UInt32.add_sub_cancel]
  · show (s.handedOut.erase b).length < 2 ^ 32
    have := h.count
    omega

/-- A caller that writes to its block does not touch the free list. -/
theorem BlockInv.write {b x : ℕ} {c : Memval HeapValue} (h : BlockInv args s free)
    (hg : guard args.target (.write b x c) s) :
    BlockInv args (update args.target (.write b x c) s) free := by
  refine ⟨?_, h.ledger, h.blockSize, h.maxObjects, h.poolIndex, h.memory, h.pool, h.heap,
    h.heapRange, h.inUse, h.count⟩
  refine h.list.congr rfl fun a ha => Memory.load_congr args.target.pointer_pos fun i hi => ?_
  refine Memory.poke_of_ne ?_
  -- the byte lies in a block that is out, and the pointer in one that is free
  have hab := (List.pairwise_append.mp h.apart).2.2 a ha b hg.1
  have hin := hg.2
  have hle := h.blockSize_pos.1
  simp only [Extent.Apart, Extent.Within, Extent.stop, extent] at hab hin
  omega

theorem BlockInv.step (h : BlockInv args s free) (hg : guard args.target l s)
    (hok : WithinLimits args l s) : ∃ free', BlockInv args (update args.target l s) free' := by
  cases l with
  | allocate size fresh =>
    cases free with
    | cons b free => exact ⟨free, h.allocate_pop hok⟩
    | nil =>
      by_cases hobj : args.objects = 0
      · exact ⟨[], h.allocate_heap hobj hg hok⟩
      · exact ⟨[], h.allocate_pool hobj hg hok⟩
  | deallocate b => exact ⟨b :: free, h.deallocate hg⟩
  | write b x c => exact ⟨free, h.write hg⟩

theorem blockInv_of_reachable (h : (allocatorLts args).ReachableWhen (WithinLimits args) s) :
    ∃ free, BlockInv args s free := by
  refine h.induct (P := fun s => ∃ free, BlockInv args s free) ?_ ?_
  · -- at first nothing is free and nothing is out
    rintro s ⟨m, heapPool, hp, rfl⟩
    exact ⟨[], .initial hp⟩
  · rintro l s - hg hok ⟨free, hi⟩
    exact hi.step hg hok

/-! ## Main result -/

/-- In every run whose blocks stay within the addresses, and whose heap allocator
has less than 2^32 blocks out, every block has one owner. -/
theorem one_owner (h : (allocatorLts args).ReachableWhen (WithinLimits args) s) :
    OneOwner args s := by
  obtain ⟨free, hi⟩ := blockInv_of_reachable h
  constructor
  · exact ⟨free, hi.list, hi.apart⟩
  · intro a ha
    exact hi.range (hi.ledger.mem_iff.mp (List.mem_append_right free ha))
  · refine ⟨?_, hi.blockSize_pos.2⟩
    rw [hi.blockSize, AllocatorArgs.blockSize]
    split <;> omega
  · exact (List.nodup_append.mp hi.nodup).2.1
  · intro hobj
    have := hi.length_le hobj
    have := hi.poolIndex
    omega
  · rw [hi.inUse, UInt32.toNat_ofNat', Nat.mod_eq_of_lt hi.count]

/-- A pool of three blocks from the heap of a 64-bit machine. -/
def poolOfThree : AllocatorArgs := ⟨.bits64, 24, 3, none, by decide, by decide⟩

/-- A block is freed and given again while its neighbour is written to. -/
theorem one_owner_run : ∃ s, (allocatorLts poolOfThree).ReachableWhen (WithinLimits poolOfThree) s ∧
    s.handedOut = [4120, 4096] ∧ OneOwner poolOfThree s := by
  obtain ⟨s, hs, hp⟩ := (allocatorLts poolOfThree).execWhen_reachable (WithinLimits poolOfThree)
    ⟨fun _ => .byte 0, 4096, fun _ => by decide, rfl⟩
    [.allocate 24 0, .allocate 10 0, .deallocate 4096, .write 4120 4143 (.byte 7),
      .write 4120 4120 (.fragment (.pointer none) 0), .allocate 24 0]
    (fun s => s.handedOut = [4120, 4096]) (by decide +kernel)
  exact ⟨s, hs, of_decide_eq_true hp, one_owner hs⟩

/-- Five objects of 2^30 bytes on a 32-bit machine. -/
def poolThatWraps : AllocatorArgs := ⟨.bits32, 2 ^ 30, 5, none, by decide, by decide⟩

/-- The size of the pool wraps to 2^30, so `new` succeeds, and the address of the
fifth block to that of the first: two callers have the same block. -/
theorem not_one_owner : ∃ s, (allocatorLts poolThatWraps).Reachable s ∧
    s.handedOut = [65536, 1073807360, 2147549184, 3221291008, 65536] ∧
    ¬ OneOwner poolThatWraps s := by
  obtain ⟨s, hs, hp⟩ := (allocatorLts poolThatWraps).execWhen_reachable Lts.always
    ⟨fun _ => .byte 0, 65536, fun _ => by decide, rfl⟩
    [.allocate 1 0, .allocate 1 0, .allocate 1 0, .allocate 1 0, .allocate 1 0]
    (fun s => s.handedOut = [65536, 1073807360, 2147549184, 3221291008, 65536])
    (by decide +kernel)
  have hout := of_decide_eq_true hp
  refine ⟨s, hs, hout, fun h => ?_⟩
  have honce := h.once
  rw [hout] at honce
  exact absurd honce (by decide)

end AllocatorRun

end AsyncSqlite
