import AsyncSqlite.Allocator.Owners

/-!
# AsyncSqlite.Allocator.Consistency — what threads can rely on

The table and the places of blocks, over every run (`consistent`), as long as the
sizes that are asked for fit (`SizesFit`). `sound_of_reachable` says that the states
of the table in `Allocator.Capacity` are the ones that threads reach.
-/

namespace AsyncSqlite

namespace XallocSystem

variable {o : XallocOptions} {s : XallocSystem} {l : XallocLabel} {entries : List ℕ}
  {t : ℕ} {place : ℕ → XPlace}

/-- What the callers of `xmalloc` and `xfree` can rely on. -/
structure Consistent (o : XallocOptions) (s : XallocSystem) : Prop where
  /-- the table has no gap before its last entry, and one allocator for a block size -/
  table : ∃ entries, s.heap.Lists entries ∧ (entries.map s.heap.getBlockSize).Nodup
  /-- an allocator that was returned is in the table, and nobody is about to delete it -/
  kept : ∀ a ∈ s.returned, some a ∈ s.heap.table ∧ s.heap.allocators a ≠ none ∧
    ∀ t call existing, s.threads t ≠ .discard call a existing
  /-- the blocks of callers have the room that was asked for, and no two overlap -/
  owned : s.owned.Pairwise fun x y => ∃ r ∈ s.heap.raw, ∃ r' ∈ s.heap.raw,
    Owns o s x.1 x.2 r ∧ Owns o s y.1 y.2 r' ∧ r.Apart r'
  /-- a block that is with a thread is with no other, and with no caller -/
  held : ∀ t a b, (s.threads t).holds = some (a, b) →
    (∀ t' a', (s.threads t').holds = some (a', b) → t' = t) ∧
      ∀ x ∈ s.owned, x.1 ≠ b + o.headerSize
  /-- a free block is with no thread and no caller, on the list of its allocator -/
  free : ∀ a, some a ∈ s.heap.table → ∃ A free, s.heap.allocators a = some A ∧
    A.Free o.target s.heap.mem free ∧ ∀ b ∈ free, s.heap.MadeBy b a ∧
      (∀ t a', (s.threads t).holds ≠ some (a', b)) ∧ ∀ x ∈ s.owned, x.1 ≠ b + o.headerSize
  /-- `xfree` finds the allocator that made the block -/
  xfree : ∀ x ∈ s.owned, ∃ r, Owns o s x.1 x.2 r ∧
    s.heap.getBlockAllocator o (Xheap.getBlockPtr o x.1) = some r.creator
  /-- what was given back went to the allocator that made it -/
  freed : ∀ x ∈ s.freed, s.heap.MadeBy x.1 x.2
  /-- ... and to the front of its list -/
  given : ∀ t a b, s.threads t = .deallocate a b → s.heap.MadeBy b a ∧
    ∃ A free A', s.heap.allocators a = some A ∧ A.Free o.target s.heap.mem free ∧
      (update o (.deallocate t) s).heap.allocators a = some A' ∧
      A'.Free o.target (update o (.deallocate t) s).heap.mem (b :: free)

/-! ## Runs -/

theorem PlaceInv.relook (h : PlaceInv o s place) (ht : TableInv o s entries)
    {call : XallocCall} {a : ℕ} (hpc : s.threads t = .insert call a) :
    PlaceInv o (update o (.insert t) s) place := by
  have hholds : (s.threads t).holds = none := congrArg XThread.holds hpc
  have hmade : (s.threads t).made = some a := congrArg XThread.made hpc
  simp only [update, hpc]
  split
  · split
    · exact h.goto rfl rfl rfl rfl (fun b hb => hmade.trans hb) hholds.symm
    · exact h.got hholds
  · split
    · rename_i heap hins
      exact h.insert ht hpc hins
    · exact h.goto rfl rfl rfl rfl (fun b hb => hmade.trans hb) hholds.symm

theorem PlaceInv.discarded (h : PlaceInv o s place) (ht : TableInv o s entries)
    {call : XallocCall} {a : ℕ} {existing : Option ℕ}
    (hpc : s.threads t = .discard call a existing) :
    PlaceInv o (update o (.discard t) s) place := by
  have hholds : (s.threads t).holds = none := congrArg XThread.holds hpc
  have hmade : (s.threads t).made = some a := congrArg XThread.made hpc
  simp only [update, hpc]
  cases existing with
  | none => exact h.discard ht .aborted hmade rfl rfl hholds
  | some b =>
    cases call with
    | getAllocator size => exact h.discard ht .idle hmade rfl rfl hholds
    | malloc size => exact h.discard ht (.pop size b) hmade rfl rfl hholds

theorem PlaceInv.step (h : PlaceInv o s place) (ht : TableInv o s entries) (hg : guard o l s) :
    ∃ place', PlaceInv o (update o l s) place' := by
  cases l with
  | lookup t call => exact ⟨place, h.lookup hg.1⟩
  | create t fresh =>
    obtain ⟨call, hpc, hfresh⟩ := guard_create hg
    refine ⟨place, ?_⟩
    simp only [update, hpc]
    exact h.create ht hpc hfresh
  | insert t =>
    obtain ⟨call, a, hpc⟩ := guard_insert hg
    exact ⟨place, h.relook ht hpc⟩
  | discard t =>
    obtain ⟨call, a, existing, hpc⟩ := guard_discard hg
    exact ⟨place, h.discarded ht hpc⟩
  | pop t =>
    obtain ⟨size, a, hpc⟩ := guard_pop hg
    exact h.pop ht hpc
  | newBlock t fresh =>
    obtain ⟨size, a, hpc, hfresh⟩ := guard_newBlock hg
    exact h.newBlock ht hpc hfresh
  | account t =>
    obtain ⟨size, a, b, hpc⟩ := guard_account hg
    exact h.account ht hpc
  | stamp t =>
    obtain ⟨size, a, b, hpc⟩ := guard_stamp hg
    exact h.stamp ht hpc
  | free t ptr size => exact h.free ht hg.2
  | deallocate t =>
    obtain ⟨a, b, hpc⟩ := guard_deallocate hg
    exact h.deallocate ht hpc
  | write ptr size x c => exact h.write ht hg.1 hg.2

/-- The headers of owned blocks name allocators of the table. -/
theorem PlaceInv.header_mem (h : PlaceInv o s place) (ht : TableInv o s entries)
    {ptr size a : ℕ} (hp : (ptr, size) ∈ s.owned)
    (hget : s.heap.getBlockAllocator o (Xheap.getBlockPtr o ptr) = some a) : a ∈ entries := by
  obtain ⟨r, hown, -, -, hheader⟩ := h.getBlockAllocator hp
  rw [hheader] at hget
  obtain rfl := Option.some.inj hget
  exact ht.lists.mem_iff.mp (h.creator r hown.raw).1

theorem places_of_reachable (hs : (xallocLts o).ReachableWhen (SizesFit o) s) :
    ∃ entries place, TableInv o s entries ∧ PlaceInv o s place := by
  refine hs.induct (P := fun s => ∃ entries place, TableInv o s entries ∧ PlaceInv o s place)
    ?_ ?_
  · rintro s ⟨m, rfl⟩
    -- without blocks any place will do
    exact ⟨[], fun _ => .owned, .initial m, .initial m _⟩
  · rintro l s - hg hfit ⟨entries, place, ht, h⟩
    -- the table needs the headers, the places need the table before the step
    obtain ⟨entries', ht'⟩ := ht.step hg hfit fun ptr size a hp hget => h.header_mem ht hp hget
    obtain ⟨place', h'⟩ := h.step ht hg
    exact ⟨entries', place', ht', h'⟩

/-- The states from which `xmalloc` and `xrealloc` are called. -/
theorem sound_of_reachable (hs : (xallocLts o).ReachableWhen (SizesFit o) s) :
    Xheap.Sound o s.heap := by
  obtain ⟨entries, place, ht, h⟩ := places_of_reachable hs
  refine ⟨fun a ha => ?_, h.apart, fun r hr => ?_⟩
  · obtain ⟨A, free, hA, hfree, hfrees⟩ := h.listed a ha
    have hwide := ht.wide a (ht.lists.mem_iff.mp ha)
    have hsize := Xheap.getBlockSize_of hA
    refine ⟨A, free, hA, by omega, hfree, fun b hb => ?_⟩
    obtain ⟨r, hr, hstart, rfl⟩ := (hfrees b hb).2
    refine ⟨r, hr, hstart, ?_⟩
    rw [← (h.creator r hr).2, hsize]
  · exact ⟨(h.range r hr).1, h.len_pos ht hr, (h.range r hr).2⟩

/-- A caller's pointer is one that `xrealloc` takes. -/
theorem hasBlock_of_owned (hs : (xallocLts o).ReachableWhen (SizesFit o) s) {ptr size : ℕ}
    (hp : (ptr, size) ∈ s.owned) : ∃ r, Xheap.HasBlock o s.heap ptr r r.creator := by
  obtain ⟨entries, place, ht, h⟩ := places_of_reachable hs
  obtain ⟨r, hown, hplaced⟩ := h.owned ptr size hp
  have hroom := hown.room
  refine ⟨r, hown.raw, hown.pointer, (h.creator r hown.raw).2, by omega, hown.header, ?_⟩
  intro b B free hb hB hfree hmem
  obtain ⟨A, free', hA, hfree', hfrees⟩ := h.listed b hb
  obtain rfl := Option.some.inj (hA.symm.trans hB)
  obtain rfl := hfree.unique hfree'
  rw [(hfrees _ hmem).1] at hplaced
  cases hplaced

/-! ## Consistency -/

/-- Whatever the threads do, as long as the sizes fit. -/
theorem consistent (hs : (xallocLts o).ReachableWhen (SizesFit o) s) : Consistent o s := by
  obtain ⟨entries, place, ht, h⟩ := places_of_reachable hs
  have hnotOwned {b : ℕ} (hb : place b ≠ .owned) (x : ℕ × ℕ) (hx : x ∈ s.owned) :
      x.1 ≠ b + o.headerSize := h.ne_of_owned hx hb
  refine ⟨⟨entries, ht.lists, ht.distinct⟩, ?_, ?_, ?_, ?_, ?_, h.freed, ?_⟩
  · intro a ha
    have hmem := ht.returned a ha
    refine ⟨ht.lists.mem_iff.mpr hmem, ht.live a hmem, fun t call existing hpc => ?_⟩
    have hmade : (s.threads t).made = some a := congrArg XThread.made hpc
    -- what is discarded is not in the table
    exact (ht.made t a hmade).1 hmem
  · refine (List.pairwise_map.mp h.once).imp_of_mem fun {x y} hx hy hne => ?_
    obtain ⟨r, hown, -⟩ := h.owned x.1 x.2 hx
    obtain ⟨r', hown', -⟩ := h.owned y.1 y.2 hy
    refine ⟨r, hown.raw, r', hown'.raw, hown, hown', h.apart.forall hown.raw hown'.raw ?_⟩
    rintro rfl
    exact hne (hown.pointer.trans hown'.pointer.symm)
  · intro t a b hb
    obtain ⟨hplaced, -⟩ := h.held t a b hb
    refine ⟨fun t' a' hb' => ?_, hnotOwned ?_⟩
    · obtain ⟨hplaced', -⟩ := h.held t' a' b hb'
      exact XPlace.held.inj (hplaced'.symm.trans hplaced)
    · rw [hplaced]
      exact XPlace.noConfusion
  · intro a ha
    obtain ⟨A, free, hA, hfree, hfrees⟩ := h.listed a ha
    refine ⟨A, free, hA, hfree, fun b hb => ?_⟩
    obtain ⟨hplaced, hmade⟩ := hfrees b hb
    refine ⟨hmade, fun t a' hb' => ?_, hnotOwned ?_⟩
    · rw [(h.held t a' b hb').1] at hplaced
      cases hplaced
    · rw [hplaced]
      exact XPlace.noConfusion
  · intro x hx
    obtain ⟨r, hown, -, -, hget⟩ := h.getBlockAllocator hx
    exact ⟨r, hown, hget⟩
  · intro t a b hpc
    have hholds : (s.threads t).holds = some (a, b) := congrArg XThread.holds hpc
    obtain ⟨-, hmade⟩ := h.held t a b hholds
    obtain ⟨r, hr, rfl, rfl⟩ := hmade
    obtain ⟨A, free, hA, hfree, -⟩ := h.listed _ (h.creator r hr).1
    obtain ⟨A', hA', hfree'⟩ := h.free_deallocate ht hholds hA hfree
    refine ⟨⟨r, hr, rfl, rfl⟩, A, free, A', hA, hfree, ?_⟩
    simp only [update, hpc]
    exact ⟨hA', hfree'⟩

/-- Two threads make an allocator of one block size at the same time, and the second is
deleted. A block goes back and is given out again. -/
theorem consistent_run : ∃ s,
    (xallocLts Xheap.guardedOptions).ReachableWhen (SizesFit Xheap.guardedOptions) s ∧
    (s.heap.table = [some 1, none, none, none] ∧ s.returned = [1, 1, 1] ∧
      s.owned = [(8208, 30), (4112, 40)] ∧ s.freed = [(4096, 1)]) ∧
    Consistent Xheap.guardedOptions s := by
  obtain ⟨s, hs, hp⟩ := Lts.execWhen_reachable (xallocLts Xheap.guardedOptions)
    (SizesFit Xheap.guardedOptions) ⟨fun _ => .byte 0, rfl⟩
    [.lookup 0 (.malloc 24), .lookup 1 (.malloc 30), .create 0 1, .create 1 2, .insert 0,
      .insert 1, .discard 1, .pop 0, .newBlock 0 4096, .pop 1, .newBlock 1 8192, .account 1,
      .account 0, .stamp 0, .stamp 1, .free 2 4112 24, .write 8208 30 8210 (.byte 7),
      .deallocate 2, .lookup 0 (.malloc 40), .pop 0, .stamp 0]
    (fun s => decide (s.heap.table = [some 1, none, none, none] ∧ s.returned = [1, 1, 1] ∧
      s.owned = [(8208, 30), (4112, 40)] ∧ s.freed = [(4096, 1)]))
    (by decide +kernel)
  exact ⟨s, hs, of_decide_eq_true hp, consistent hs⟩

/-- A size just below half of the range is rounded to zero, and the allocator for it is
never found again. -/
theorem not_consistent : ∃ s, (xallocLts Xheap.plainOptions).Reachable s ∧
    ¬ Consistent Xheap.plainOptions s := by
  obtain ⟨s, hs, hp⟩ := Lts.execWhen_reachable (xallocLts Xheap.plainOptions) Lts.always
    ⟨fun _ => .byte 0, rfl⟩
    [.lookup 0 (.malloc (2 ^ 63 - 8)), .create 0 1, .insert 0,
      .lookup 1 (.malloc (2 ^ 63 - 8)), .create 1 2, .insert 1]
    (fun s => decide (s.heap.table = [some 1, some 2, none, none] ∧
      s.heap.getBlockSize 1 = s.heap.getBlockSize 2))
    (by decide +kernel)
  obtain ⟨htable, hsize⟩ := of_decide_eq_true hp
  refine ⟨s, hs, fun h => ?_⟩
  obtain ⟨entries, hlists, hdistinct⟩ := h.table
  have h₁ : 1 ∈ entries := hlists.mem_iff.mp (by simp [htable])
  have h₂ : 2 ∈ entries := hlists.mem_iff.mp (by simp [htable])
  exact absurd (List.inj_on_of_nodup_map hdistinct h₁ h₂ hsize) (by decide)

end XallocSystem

end AsyncSqlite
