import AsyncSqlite.Heap.Bytes
import AsyncSqlite.Heap.IntrusiveList
import AsyncSqlite.Lts.Core
import Mathlib.Algebra.Group.Nat.Defs

/-!
# AsyncSqlite.Allocator.Model — the fixed-block `Allocator`

`extras/allocator/Allocator.cpp`: blocks of one size come from a pool or from the
heap, and freed blocks are kept in a list that is threaded through their first
bytes.

Reading guide:

* Addresses and sizes are numbers; what the code computes in `size_t` and in
  pointer arithmetic is taken modulo `Target.sizeT`. NULL is `none`, and an
  address that comes out as zero is NULL.
* Memory is by the byte. A pointer is a value of `Target.pointer` bytes; loading
  it where no pointer is stored gives NULL.
* `new` gives any address at which nothing else of the allocator is, so it is an
  argument of the operations that need it.
* An `Allocate` that finds the pool exhausted stays in the loop around the new
  handler until `Pop` gives a block, which makes it an `Allocate` of that later
  moment, or ends in `BAD_ALLOC`.
* The name, the safeguards and the destructor are left out.
-/

namespace AsyncSqlite

/-- The machine: how wide `size_t` and pointers are. -/
inductive Target where
  | bits32 | bits64
deriving DecidableEq, Repr

namespace Target

/-- The number of values of `size_t`. -/
def sizeT : Target → ℕ
  | .bits32 => 2 ^ 32
  | .bits64 => 2 ^ 64

/-- `sizeof(long*)` -/
def pointer : Target → ℕ
  | .bits32 => 4
  | .bits64 => 8

theorem pointer_pos (T : Target) : 0 < T.pointer := by
  cases T <;> decide

theorem pointer_lt_sizeT (T : Target) : T.pointer < T.sizeT := by
  cases T <;> decide

/-- The pointer that an address computation gives. -/
def address (T : Target) (n : ℕ) : Option ℕ := if n % T.sizeT = 0 then none else some (n % T.sizeT)

theorem address_of_lt {T : Target} {n : ℕ} (hpos : 0 < n) (h : n < T.sizeT) :
    T.address n = some n := by
  unfold address
  rw [Nat.mod_eq_of_lt h]
  exact if_neg (by omega)

/-- Up to the last address it is the address itself, or NULL. -/
theorem eq_of_mem_address {T : Target} {n p : ℕ} (h : n ≤ T.sizeT) (hp : T.address n = some p) :
    p = n := by
  unfold address at hp
  split at hp
  · cases hp
  · rename_i hne
    have hlt : n < T.sizeT := by
      refine Nat.lt_of_le_of_ne h ?_
      rintro rfl
      exact hne (Nat.mod_self _)
    rw [Nat.mod_eq_of_lt hlt] at hp
    exact (Option.some.inj hp).symm

end Target

/-- What is stored in blocks: pointers, and the words of the safeguards. -/
inductive HeapValue where
  | pointer (p : Option ℕ)
  | word (w : UInt32)
deriving DecidableEq

abbrev HeapMemory := Memory HeapValue

/-- Load a pointer. -/
def loadPointer (T : Target) (m : HeapMemory) (a : ℕ) : Option ℕ :=
  match m.load T.pointer a with
  | some (.pointer p) => p
  | _ => none

/-- `Allocator::AllocatorMode` -/
inductive AllocatorMode where
  | heapBlocks | heapPool | staticPool
deriving DecidableEq, Repr

structure Allocator where
  /-- `m_blockSize` -/
  blockSize : ℕ
  /-- `m_objectSize` -/
  objectSize : ℕ
  /-- `m_maxObjects` -/
  maxObjects : ℕ
  /-- `m_allocatorMode` -/
  mode : AllocatorMode
  /-- `m_pHead` -/
  head : Option ℕ
  /-- `m_pPool` -/
  pool : ℕ
  /-- `m_poolIndex`, never above `m_maxObjects` -/
  poolIndex : ℕ
  blockCnt : UInt32
  blocksInUse : UInt32
  allocations : UInt32
  deallocations : UInt32
deriving DecidableEq, Repr

namespace Allocator

/-! ## The operations -/

/-- `Allocator::Allocator`; `heapPool` is what `new char[..]` gives to a pool. -/
def construct (T : Target) (size objects : ℕ) (memory : Option ℕ) (heapPool : ℕ) : Allocator where
  blockSize := if size < T.pointer then T.pointer else size
  objectSize := size
  maxObjects := objects
  mode :=
    if objects ≠ 0 then
      if memory.isSome then .staticPool else .heapPool
    else .heapBlocks
  head := none
  pool := if objects ≠ 0 then memory.getD heapPool else 0
  poolIndex := 0
  blockCnt := 0
  blocksInUse := 0
  allocations := 0
  deallocations := 0

/-- `Push` -/
def push (T : Target) (m : HeapMemory) (A : Allocator) (pMemory : ℕ) : HeapMemory × Allocator :=
  (m.store T.pointer pMemory (.pointer A.head), { A with head := some pMemory })

/-- `Pop` -/
def pop (T : Target) (m : HeapMemory) (A : Allocator) : Option ℕ × Allocator :=
  match A.head with
  | none => (none, A)
  | some pBlock => (some pBlock, { A with head := loadPointer T m pBlock })

/-- `AccountAlloc` -/
def accountAlloc (A : Allocator) (newBlock : Bool) : Allocator :=
  { A with
    blockCnt := if newBlock then A.blockCnt + 1 else A.blockCnt
    blocksInUse := A.blocksInUse + 1
    allocations := A.allocations + 1 }

/-- The part of `Allocate` that gets a new block; `fresh` is what `new` gives. -/
def newBlock (T : Target) (A : Allocator) (fresh : ℕ) : Option ℕ × Allocator :=
  if A.maxObjects ≠ 0 then
    if A.poolIndex < A.maxObjects then
      (T.address (A.pool + A.poolIndex * A.blockSize), { A with poolIndex := A.poolIndex + 1 })
    else
      -- in the loop around the new handler
      (none, A)
  else
    (some fresh, { A with blockCnt := A.blockCnt + 1 })

/-- `Allocate`, behind the assertion on the size. -/
def allocate (T : Target) (m : HeapMemory) (A : Allocator) (fresh : ℕ) : Option ℕ × Allocator :=
  let (pBlock, A) :=
    match A.pop T m with
    | (some pBlock, A) => (some pBlock, A)
    | (none, A) => A.newBlock T fresh
  match pBlock with
  | some pBlock =>
    (some pBlock, { A with blocksInUse := A.blocksInUse + 1, allocations := A.allocations + 1 })
  | none => (none, A)

/-- `Deallocate` -/
def deallocate (T : Target) (m : HeapMemory) (A : Allocator) (pBlock : ℕ) :
    HeapMemory × Allocator :=
  let (m, A) := A.push T m pBlock
  (m, { A with blocksInUse := A.blocksInUse - 1, deallocations := A.deallocations + 1 })

/-! ## The free list -/

/-- The blocks that can be reached from `m_pHead`. -/
def freeLinks (T : Target) (m : HeapMemory) (A : Allocator) : Links ℕ where
  head := A.head
  next := loadPointer T m

/-- The free list holds these blocks, in this order. -/
def Free (T : Target) (m : HeapMemory) (A : Allocator) (free : List ℕ) : Prop :=
  (A.freeLinks T m).Holds free

variable {T : Target} {m m' : HeapMemory} {A A' : Allocator} {a b : ℕ} {free : List ℕ}

/-- Only the pointers in the free blocks matter. -/
theorem Free.congr (h : A.Free T m free) (hhead : A'.head = A.head)
    (hload : ∀ a ∈ free, m'.load T.pointer a = m.load T.pointer a) : A'.Free T m' free := by
  show (A'.freeLinks T m').Path A'.head free
  rw [hhead]
  refine Links.Path.congr h fun a ha => ?_
  show loadPointer T m' a = loadPointer T m a
  rw [loadPointer, hload a ha, loadPointer]

theorem Free.unique {free' : List ℕ} (h : A.Free T m free) (h' : A.Free T m free') :
    free = free' :=
  Links.Path.unique h h'

theorem Free.nodup (h : A.Free T m free) : free.Nodup := Links.Path.nodup h

theorem Free.pop_nil (h : A.Free T m []) : A.pop T m = (none, A) := by
  have hhead : A.head = none := h
  simp [pop, hhead]

theorem Free.pop_cons (h : A.Free T m (b :: free)) :
    ∃ p, A.pop T m = (some b, { A with head := p }) ∧ Free T m { A with head := p } free := by
  obtain ⟨hhead, htail⟩ := h
  have hhead' : A.head = some b := hhead
  refine ⟨loadPointer T m b, by simp [pop, hhead'], ?_⟩
  exact Links.Path.congr htail fun _ _ => rfl

/-- The block that is pushed is apart from those in the list. -/
theorem Free.push (h : A.Free T m free)
    (hfree : ∀ a ∈ free, Extent.Apart ⟨b, T.pointer⟩ ⟨a, T.pointer⟩) :
    Free T (A.push T m b).1 (A.push T m b).2 (b :: free) := by
  have hself : loadPointer T (A.push T m b).1 b = A.head := by
    rw [loadPointer, Allocator.push, Memory.load_store_self T.pointer_pos]
  refine ⟨rfl, ?_⟩
  show ((A.push T m b).2.freeLinks T (A.push T m b).1).Path (loadPointer T (A.push T m b).1 b) free
  rw [hself]
  refine Links.Path.congr h fun a ha => ?_
  show loadPointer T (A.push T m b).1 a = loadPointer T m a
  rw [loadPointer, Allocator.push, Memory.load_store_apart T.pointer_pos (hfree a ha), loadPointer]

end Allocator

/-! ## Runs of one allocator -/

/-- The arguments of the constructor. -/
structure AllocatorArgs where
  target : Target
  size : ℕ
  objects : ℕ
  memory : Option ℕ
  size_lt : size < target.sizeT
  objects_lt : objects < 2 ^ 32

namespace AllocatorArgs

variable (args : AllocatorArgs)

/-- The size that the constructor makes of `size`. -/
def blockSize : ℕ := if args.size < args.target.pointer then args.target.pointer else args.size

/-- Where the pool is: the caller's memory has `size * objects` bytes, the array
from the heap as many as the product in `size_t` says. One past the end is an
address too. -/
def Placed (heapPool : ℕ) : Prop :=
  match args.memory with
  | some p => 0 < p ∧ p + args.size * args.objects < args.target.sizeT
  | none => args.objects ≠ 0 → 0 < heapPool ∧
      heapPool + args.blockSize * args.objects % args.target.sizeT < args.target.sizeT

end AllocatorArgs

structure AllocatorRun where
  mem : HeapMemory
  allocator : Allocator
  /-- the blocks that callers have -/
  handedOut : List ℕ
  /-- the blocks that `new char[m_blockSize]` has given -/
  heap : List ℕ

inductive AllocatorCall where
  /-- `Allocate(size)`; `fresh` is what `new` gives, if it is asked -/
  | allocate (size fresh : ℕ)
  | deallocate (pBlock : ℕ)
  /-- the caller that has `pBlock` writes the byte at `x` -/
  | write (pBlock x : ℕ) (c : Memval HeapValue)
deriving DecidableEq

namespace AllocatorRun

/-- The addresses of a block. -/
def extent (s : AllocatorRun) (b : ℕ) : Extent := ⟨b, s.allocator.blockSize⟩

def guard (T : Target) (l : AllocatorCall) (s : AllocatorRun) : Prop :=
  match l with
  | .allocate size fresh =>
    size ≤ s.allocator.objectSize ∧
      (s.allocator.head = none →
        if s.allocator.maxObjects ≠ 0 then s.allocator.poolIndex < s.allocator.maxObjects
        else 0 < fresh ∧ (s.extent fresh).stop ≤ T.sizeT ∧
          ∀ b ∈ s.heap, (s.extent b).Apart (s.extent fresh))
  | .deallocate b => b ∈ s.handedOut
  | .write b x _ => b ∈ s.handedOut ∧ (⟨x, 1⟩ : Extent).Within (s.extent b)

instance (T : Target) (l : AllocatorCall) (s : AllocatorRun) : Decidable (guard T l s) := by
  cases l <;> unfold guard <;> infer_instance

def update (T : Target) (l : AllocatorCall) (s : AllocatorRun) : AllocatorRun :=
  match l with
  | .allocate _ fresh =>
    let (pBlock, A) := s.allocator.allocate T s.mem fresh
    { s with
      allocator := A
      handedOut := s.handedOut ++ pBlock.toList
      heap :=
        if s.allocator.head = none ∧ s.allocator.maxObjects = 0 then s.heap ++ [fresh]
        else s.heap }
  | .deallocate b =>
    let (m, A) := s.allocator.deallocate T s.mem b
    { s with mem := m, allocator := A, handedOut := s.handedOut.erase b }
  | .write _ x c => { s with mem := s.mem.poke x c }

def initial (args : AllocatorArgs) (m : HeapMemory) (heapPool : ℕ) : AllocatorRun where
  mem := m
  allocator := .construct args.target args.size args.objects args.memory heapPool
  handedOut := []
  heap := []

end AllocatorRun

def allocatorLts (args : AllocatorArgs) : Lts AllocatorRun AllocatorCall where
  init s := ∃ m heapPool, args.Placed heapPool ∧ s = AllocatorRun.initial args m heapPool
  guard := AllocatorRun.guard args.target
  update := AllocatorRun.update args.target

instance (args : AllocatorArgs) (l : AllocatorCall) (s : AllocatorRun) :
    Decidable ((allocatorLts args).guard l s) :=
  inferInstanceAs (Decidable (AllocatorRun.guard args.target l s))

end AsyncSqlite
