import AsyncSqlite.Allocator.Capacity

/-!
# AsyncSqlite.Allocator.Threads — threads in `xmalloc` and `xfree`

Any number of threads call `xallocator_get_allocator`, `xmalloc` and `xfree`. Each
section that is under the mutex is a step, and so is each piece of code between two
of them; `XThread` says where in its call a thread is.

* Between calls of its own, a caller writes to the bytes that it asked for.
* Callers keep to the rules: a size below half of the range of `size_t`, and no
  pointer is freed twice.
* `returned`, `owned` and `freed` are not in the program: they record what callers
  got and what was given back.
-/

namespace AsyncSqlite

/-- The call for which a thread is in `xallocator_get_allocator`. -/
inductive XallocCall where
  | getAllocator (size : ℕ)
  | malloc (size : ℕ)
deriving DecidableEq, Repr

def XallocCall.size : XallocCall → ℕ
  | .getAllocator size => size
  | .malloc size => size

/-- Where a thread is. -/
inductive XThread where
  | idle
  /-- no allocator was found -/
  | create (call : XallocCall)
  /-- it has made the allocator `a` -/
  | insert (call : XallocCall) (a : ℕ)
  /-- `a` was not needed, as there is `existing`; `none` when the table is full -/
  | discard (call : XallocCall) (a : ℕ) (existing : Option ℕ)
  /-- `xmalloc` has its allocator -/
  | pop (size a : ℕ)
  /-- no block was free -/
  | newBlock (size a : ℕ)
  /-- it has got the block from the heap -/
  | account (size a block : ℕ)
  | stamp (size a block : ℕ)
  /-- `xfree` has read and marked the header of the block -/
  | deallocate (a block : ℕ)
  /-- an assertion has failed -/
  | aborted
deriving DecidableEq, Repr

namespace XThread

/-- The allocator that the thread has made and that is not in the table. -/
def made : XThread → Option ℕ
  | .insert _ a => some a
  | .discard _ a _ => some a
  | _ => none

/-- The block that is with the thread, and its allocator. -/
def holds : XThread → Option (ℕ × ℕ)
  | .account _ a block => some (a, block)
  | .stamp _ a block => some (a, block)
  | .deallocate a block => some (a, block)
  | _ => none

end XThread

structure XallocSystem where
  heap : Xheap
  threads : ℕ → XThread
  /-- the allocators that `xallocator_get_allocator` has returned -/
  returned : List ℕ
  /-- the pointers that callers have, with the sizes they asked for -/
  owned : List (ℕ × ℕ)
  /-- the blocks that were given back, and to which allocator -/
  freed : List (ℕ × ℕ)

inductive XallocLabel where
  /-- a call begins; the first section of `xallocator_get_allocator` -/
  | lookup (t : ℕ) (call : XallocCall)
  /-- `new Allocator(..)` -/
  | create (t fresh : ℕ)
  /-- the second section -/
  | insert (t : ℕ)
  /-- `delete allocator` -/
  | discard (t : ℕ)
  | pop (t : ℕ)
  /-- `new char[blockSize]` -/
  | newBlock (t fresh : ℕ)
  | account (t : ℕ)
  /-- `set_block_allocator`, and `xmalloc` returns -/
  | stamp (t : ℕ)
  /-- `xfree` of a pointer, up to the mutex -/
  | free (t : ℕ) (ptr size : ℕ)
  | deallocate (t : ℕ)
  /-- the caller that has `ptr` writes the byte at `x` -/
  | write (ptr size x : ℕ) (c : Memval HeapValue)
deriving DecidableEq

namespace XallocSystem

variable (o : XallocOptions)

def goto (s : XallocSystem) (t : ℕ) (pc : XThread) : XallocSystem :=
  { s with threads := Function.update s.threads t pc }

/-- `xallocator_get_allocator` returns `a`. -/
def got (s : XallocSystem) (t : ℕ) (call : XallocCall) (a : ℕ) : XallocSystem :=
  { s with returned := s.returned ++ [a] }.goto t
    (match call with
    | .getAllocator _ => .idle
    | .malloc size => .pop size a)

/-! ## Guards -/

def guard (l : XallocLabel) (s : XallocSystem) : Prop :=
  match l with
  | .lookup t call => s.threads t = .idle ∧ 2 * call.size < o.target.sizeT
  | .create t fresh =>
    match s.threads t with
    | .create _ => s.heap.allocators fresh = none
    | _ => False
  | .insert t =>
    match s.threads t with
    | .insert _ _ => True
    | _ => False
  | .discard t =>
    match s.threads t with
    | .discard _ _ _ => True
    | _ => False
  | .pop t =>
    match s.threads t with
    | .pop _ _ => True
    | _ => False
  | .newBlock t fresh =>
    match s.threads t with
    | .newBlock _ a => s.heap.FreshBlock o fresh (s.heap.getBlockSize a)
    | _ => False
  | .account t =>
    match s.threads t with
    | .account _ _ _ => True
    | _ => False
  | .stamp t =>
    match s.threads t with
    | .stamp _ _ _ => True
    | _ => False
  | .free t ptr size => s.threads t = .idle ∧ (ptr, size) ∈ s.owned
  | .deallocate t =>
    match s.threads t with
    | .deallocate _ _ => True
    | _ => False
  | .write ptr size x _ => (ptr, size) ∈ s.owned ∧ (⟨x, 1⟩ : Extent).Within ⟨ptr, size⟩

instance (l : XallocLabel) (s : XallocSystem) : Decidable (guard o l s) := by
  cases l <;> simp only [guard] <;> (try split) <;> infer_instance

/-! ## Updates -/

def update (l : XallocLabel) (s : XallocSystem) : XallocSystem :=
  match l with
  | .lookup t call =>
    match s.heap.findAllocator (o.blockSize call.size) with
    | some a => s.got t call a
    | none => s.goto t (.create call)
  | .create t fresh =>
    match s.threads t with
    | .create call =>
      { s with heap := s.heap.newAllocator o (o.blockSize call.size) fresh }.goto t
        (.insert call fresh)
    | _ => s
  | .insert t =>
    match s.threads t with
    | .insert call a =>
      match s.heap.findAllocator (o.blockSize call.size) with
      | some existing =>
        if existing ≠ a then s.goto t (.discard call a (some existing)) else s.got t call a
      | none =>
        match s.heap.insertAllocator a with
        | some heap => { s with heap := heap }.got t call a
        | none => s.goto t (.discard call a none)
    | _ => s
  | .discard t =>
    match s.threads t with
    | .discard call a existing =>
      match existing with
      | some b => { s with heap := s.heap.deleteAllocator a }.got t call b
      | none => { s with heap := s.heap.deleteAllocator a }.goto t .aborted
    | _ => s
  | .pop t =>
    match s.threads t with
    | .pop size a =>
      match s.heap.popBlock o a with
      | (some block, heap) => { s with heap := heap }.goto t (.stamp size a block)
      | (none, heap) => { s with heap := heap }.goto t (.newBlock size a)
    | _ => s
  | .newBlock t fresh =>
    match s.threads t with
    | .newBlock size a =>
      { s with heap := s.heap.newBlock a fresh }.goto t (.account size a fresh)
    | _ => s
  | .account t =>
    match s.threads t with
    | .account size a block =>
      { s with heap := s.heap.accountNew a }.goto t (.stamp size a block)
    | _ => s
  | .stamp t =>
    match s.threads t with
    | .stamp size a block =>
      { s with
        heap := s.heap.setBlockAllocator o block a
        owned := s.owned ++
          (o.target.address (block + o.headerSize)).toList.map (·, size) }.goto t .idle
    | _ => s
  | .free t ptr size =>
    let block := Xheap.getBlockPtr o ptr
    match s.heap.getBlockAllocator o block with
    | some a =>
      { s with
        heap := s.heap.markFreed o block
        owned := s.owned.erase (ptr, size) }.goto t (.deallocate a block)
    | none => s.goto t .aborted
  | .deallocate t =>
    match s.threads t with
    | .deallocate a block =>
      { s with
        heap := s.heap.deallocate o a block
        freed := s.freed ++ [(block, a)] }.goto t .idle
    | _ => s
  | .write _ _ x c => { s with heap := { s.heap with mem := s.heap.mem.poke x c } }

/-- Nothing was allocated; the memory has any content. -/
def initial (m : HeapMemory) : XallocSystem where
  heap := .fresh o m
  threads _ := .idle
  returned := []
  owned := []
  freed := []

/-! ## Where a thread is that takes a step -/

section Guards

variable {o : XallocOptions} {s : XallocSystem} {t : ℕ}

theorem guard_create {fresh : ℕ} (hg : guard o (.create t fresh) s) :
    ∃ call, s.threads t = .create call ∧ s.heap.allocators fresh = none := by
  simp only [guard] at hg
  split at hg
  · rename_i call hpc
    exact ⟨call, hpc, hg⟩
  · exact hg.elim

theorem guard_insert (hg : guard o (.insert t) s) : ∃ call a, s.threads t = .insert call a := by
  simp only [guard] at hg
  split at hg
  · rename_i call a hpc
    exact ⟨call, a, hpc⟩
  · exact hg.elim

theorem guard_discard (hg : guard o (.discard t) s) :
    ∃ call a existing, s.threads t = .discard call a existing := by
  simp only [guard] at hg
  split at hg
  · rename_i call a existing hpc
    exact ⟨call, a, existing, hpc⟩
  · exact hg.elim

theorem guard_pop (hg : guard o (.pop t) s) : ∃ size a, s.threads t = .pop size a := by
  simp only [guard] at hg
  split at hg
  · rename_i size a hpc
    exact ⟨size, a, hpc⟩
  · exact hg.elim

theorem guard_newBlock {fresh : ℕ} (hg : guard o (.newBlock t fresh) s) :
    ∃ size a, s.threads t = .newBlock size a ∧
      s.heap.FreshBlock o fresh (s.heap.getBlockSize a) := by
  simp only [guard] at hg
  split at hg
  · rename_i size a hpc
    exact ⟨size, a, hpc, hg⟩
  · exact hg.elim

theorem guard_account (hg : guard o (.account t) s) :
    ∃ size a block, s.threads t = .account size a block := by
  simp only [guard] at hg
  split at hg
  · rename_i size a block hpc
    exact ⟨size, a, block, hpc⟩
  · exact hg.elim

theorem guard_stamp (hg : guard o (.stamp t) s) :
    ∃ size a block, s.threads t = .stamp size a block := by
  simp only [guard] at hg
  split at hg
  · rename_i size a block hpc
    exact ⟨size, a, block, hpc⟩
  · exact hg.elim

theorem guard_deallocate (hg : guard o (.deallocate t) s) :
    ∃ a block, s.threads t = .deallocate a block := by
  simp only [guard] at hg
  split at hg
  · rename_i a block hpc
    exact ⟨a, block, hpc⟩
  · exact hg.elim

end Guards

end XallocSystem

def xallocLts (o : XallocOptions) : Lts XallocSystem XallocLabel where
  init s := ∃ m, s = .initial o m
  guard := XallocSystem.guard o
  update := XallocSystem.update o

instance (o : XallocOptions) (l : XallocLabel) (s : XallocSystem) :
    Decidable ((xallocLts o).guard l s) :=
  inferInstanceAs (Decidable (XallocSystem.guard o l s))

end AsyncSqlite
