import AsyncSqlite.Allocator.Threads

/-!
# AsyncSqlite.Allocator.Table — the table of allocators, among threads

Between the two sections of `xallocator_get_allocator` other threads may insert an
allocator of the same block size. The second look at the table finds it
(`Lists.getBlockSize_ne`), so the table holds one allocator for a block size
(`TableInv`), and the one that was made in vain is in no other hands.

This rests on block sizes that are what was asked for (`SizesFit`): an allocator
never has the block size zero, to which large sizes wrap, and is never found.
-/

namespace AsyncSqlite

namespace Xheap

variable {s s' : Xheap} {a size : ℕ} {entries : List ℕ}

/-! ## The slots -/

/-- The table holds these allocators, and behind them empty slots. -/
def Lists (s : Xheap) (entries : List ℕ) : Prop :=
  ∃ n, s.table = entries.map some ++ List.replicate n none

theorem Lists.mem_iff (h : s.Lists entries) : some a ∈ s.table ↔ a ∈ entries := by
  obtain ⟨n, htable⟩ := h
  simp [htable]

theorem findIn_entries (s : Xheap) (size n : ℕ) (entries : List ℕ) :
    s.findIn size (entries.map some ++ List.replicate n none) = none →
      ∀ a ∈ entries, s.getBlockSize a ≠ size := by
  induction entries with
  | nil =>
    intro _ a ha
    exact absurd ha List.not_mem_nil
  | cons b entries ih =>
    intro hnone a ha
    simp only [List.map_cons, List.cons_append, findIn] at hnone
    split at hnone
    · cases hnone
    · rename_i hb
      rcases List.mem_cons.mp ha with rfl | ha
      · exact hb
      · exact ih hnone a ha

/-- The whole table is searched. -/
theorem Lists.getBlockSize_ne (h : s.Lists entries) (hnone : s.findAllocator size = none) :
    ∀ a ∈ entries, s.getBlockSize a ≠ size := by
  obtain ⟨n, htable⟩ := h
  unfold findAllocator at hnone
  rw [htable] at hnone
  exact findIn_entries s size n entries hnone

theorem insertIn_entries (a n : ℕ) (entries : List ℕ) :
    insertIn a (entries.map some ++ List.replicate (n + 1) none) =
      some ((entries ++ [a]).map some ++ List.replicate n none) := by
  induction entries with
  | nil => rfl
  | cons b entries ih =>
    simp only [List.map_cons, List.cons_append, insertIn, ih, Option.map_some]

theorem insertIn_full (a : ℕ) (entries : List ℕ) : insertIn a (entries.map some) = none := by
  induction entries with
  | nil => rfl
  | cons b entries ih =>
    simp only [List.map_cons, insertIn, ih, Option.map_none]

/-- An allocator goes to the first empty slot. -/
theorem Lists.insertAllocator (h : s.Lists entries) (hins : s.insertAllocator a = some s') :
    s'.Lists (entries ++ [a]) ∧ s'.allocators = s.allocators ∧ s'.mem = s.mem ∧
      s'.raw = s.raw := by
  obtain ⟨table, htable, rfl⟩ := insertAllocator_eq_some hins
  obtain ⟨n, hslots⟩ := h
  rw [hslots] at htable
  cases n with
  | zero =>
    rw [List.replicate_zero, List.append_nil, insertIn_full] at htable
    cases htable
  | succ n =>
    rw [insertIn_entries] at htable
    obtain rfl := Option.some.inj htable
    exact ⟨⟨n, rfl⟩, rfl, rfl, rfl⟩

end Xheap

namespace XThread

/-- A block of the allocator has room for the size. -/
def Room (o : XallocOptions) (h : Xheap) (a size : ℕ) : Prop :=
  o.headerSize + size + o.footerSize ≤ h.getBlockSize a

/-- What a thread relies on between two sections. -/
def Ok (o : XallocOptions) (h : Xheap) (entries : List ℕ) : XThread → Prop
  | .idle => True
  | .create call => o.Fits call.size
  | .insert call a => o.Fits call.size ∧ h.getBlockSize a = o.blockSize call.size
  | .discard call _ existing => ∀ b ∈ existing, b ∈ entries ∧ Room o h b call.size
  | .pop size a => a ∈ entries ∧ Room o h a size
  | .newBlock size a => a ∈ entries ∧ Room o h a size
  | .account size a _ => a ∈ entries ∧ Room o h a size
  | .stamp size a _ => a ∈ entries ∧ Room o h a size
  | .deallocate a _ => a ∈ entries
  | .aborted => True

variable {o : XallocOptions} {h h' : Xheap} {entries entries' : List ℕ} {pc : XThread}

/-- The table may grow, and allocators in the table and one's own keep their size. -/
theorem Ok.mono (hok : pc.Ok o h entries) (hentries : ∀ a ∈ entries, a ∈ entries')
    (hsize : ∀ a ∈ entries, h'.getBlockSize a = h.getBlockSize a)
    (hmade : ∀ a, pc.made = some a → h'.getBlockSize a = h.getBlockSize a) :
    pc.Ok o h' entries' := by
  have hroom {a size : ℕ} (ha : a ∈ entries ∧ Room o h a size) :
      a ∈ entries' ∧ Room o h' a size := by
    refine ⟨hentries a ha.1, ?_⟩
    unfold Room
    rw [hsize a ha.1]
    exact ha.2
  cases pc with
  | idle => trivial
  | create call => exact hok
  | insert call a => exact ⟨hok.1, (hmade a rfl).trans hok.2⟩
  | discard call a existing => exact fun b hb => hroom (hok b hb)
  | pop size a => exact hroom hok
  | newBlock size a => exact hroom hok
  | account size a block => exact hroom hok
  | stamp size a block => exact hroom hok
  | deallocate a block => exact hentries a hok
  | aborted => trivial

/-- A block size that is what was asked for has the room. -/
theorem room_of_fits {a size : ℕ} (hfit : o.Fits size)
    (hsize : h.getBlockSize a = o.blockSize size) : Room o h a size := by
  have hle := XallocOptions.blockSize_of_fits hfit
  unfold Room
  omega

end XThread

namespace XallocSystem

variable {o : XallocOptions} {s s' : XallocSystem} {l : XallocLabel} {entries : List ℕ}
  {t : ℕ} {pc : XThread}

/-- The size that a call asks for fits in half of the range, with header and footer. -/
def SizesFit (o : XallocOptions) (l : XallocLabel) (_ : XallocSystem) : Prop :=
  match l with
  | .lookup _ call => o.Fits call.size
  | _ => True

instance (l : XallocLabel) (s : XallocSystem) : Decidable (SizesFit o l s) :=
  match l with
  | .lookup _ call => inferInstanceAs (Decidable (o.Fits call.size))
  | .create _ _ | .insert _ | .discard _ | .pop _ | .newBlock _ _ | .account _ | .stamp _
  | .free _ _ _ | .deallocate _ | .write _ _ _ _ => isTrue trivial

structure TableInv (o : XallocOptions) (s : XallocSystem) (entries : List ℕ) : Prop where
  lists : s.heap.Lists entries
  distinct : (entries.map s.heap.getBlockSize).Nodup
  live : ∀ a ∈ entries, s.heap.allocators a ≠ none
  wide : ∀ a ∈ entries, o.target.pointer ≤ s.heap.getBlockSize a
  made : ∀ t a, (s.threads t).made = some a → a ∉ entries ∧ s.heap.allocators a ≠ none
  /-- one thread has made it -/
  once : ∀ t t' a, (s.threads t).made = some a → (s.threads t').made = some a → t = t'
  threads : ∀ t, (s.threads t).Ok o s.heap entries
  returned : ∀ a ∈ s.returned, a ∈ entries

theorem TableInv.initial (m : HeapMemory) : TableInv o (.initial o m) [] := by
  refine ⟨⟨o.maxAllocators, rfl⟩, List.nodup_nil, ?_, ?_, ?_, ?_, fun _ => trivial, ?_⟩
  · exact fun a ha => absurd ha List.not_mem_nil
  · exact fun a ha => absurd ha List.not_mem_nil
  · intro t a hmade
    cases hmade
  · intro t t' a hmade
    cases hmade
  · exact fun a ha => absurd ha List.not_mem_nil

/-- What the thread relies on, by where it is. -/
theorem TableInv.ok (h : TableInv o s entries) (hpc : s.threads t = pc) :
    pc.Ok o s.heap entries :=
  hpc ▸ h.threads t

/-! ## Steps -/

/-- A step that keeps the table and the block sizes. -/
theorem TableInv.same (h : TableInv o s entries) (t : ℕ) (pc : XThread)
    (hsame : Xheap.SameTable s.heap s'.heap)
    (hthreads : s'.threads = Function.update s.threads t pc) (hok : pc.Ok o s.heap entries)
    (hmade : ∀ a, pc.made = some a → (s.threads t).made = some a)
    (hreturned : ∀ a ∈ s'.returned, a ∈ entries) : TableInv o s' entries := by
  -- a thread has made no more than it had
  have hmade' {t' a : ℕ} (ha : (s'.threads t').made = some a) : (s.threads t').made = some a := by
    rw [hthreads] at ha
    by_cases ht : t' = t
    · subst ht
      rw [Function.update_self] at ha
      exact hmade a ha
    · rwa [Function.update_of_ne ht] at ha
  refine ⟨?_, ?_, fun a ha => hsame.live (h.live a ha), ?_, ?_, ?_, ?_, hreturned⟩
  · obtain ⟨n, htable⟩ := h.lists
    exact ⟨n, hsame.table.trans htable⟩
  · have hmap : entries.map s'.heap.getBlockSize = entries.map s.heap.getBlockSize :=
      List.map_congr_left fun a _ => hsame.getBlockSize a
    rw [hmap]
    exact h.distinct
  · intro a ha
    rw [hsame.getBlockSize]
    exact h.wide a ha
  · intro t' a ha
    obtain ⟨hnot, hlive⟩ := h.made t' a (hmade' ha)
    exact ⟨hnot, hsame.live hlive⟩
  · exact fun t₁ t₂ a h₁ h₂ => h.once t₁ t₂ a (hmade' h₁) (hmade' h₂)
  · intro t'
    have hkeep {pc' : XThread} (hpc : pc'.Ok o s.heap entries) : pc'.Ok o s'.heap entries :=
      hpc.mono (fun _ ha => ha) (fun a _ => hsame.getBlockSize a) fun a _ => hsame.getBlockSize a
    rw [hthreads]
    by_cases ht : t' = t
    · subst ht
      rw [Function.update_self]
      exact hkeep hok
    · rw [Function.update_of_ne ht]
      exact hkeep (h.threads t')

/-- `xallocator_get_allocator` returns an allocator of the table. -/
theorem TableInv.got (h : TableInv o s entries) {call : XallocCall} {a : ℕ} (ha : a ∈ entries)
    (hroom : XThread.Room o s.heap a call.size) : TableInv o (s.got t call a) entries := by
  refine h.same t _ (.refl s.heap) rfl ?_ ?_ ?_
  · cases call with
    | getAllocator size => trivial
    | malloc size => exact ⟨ha, hroom⟩
  · intro b hb
    cases call <;> cases hb
  · intro b hb
    rcases List.mem_append.mp hb with hb | hb
    · exact h.returned b hb
    · rw [List.mem_singleton.mp hb]
      exact ha

/-- A step that concerns an allocator that only the thread `t` has, or nobody. -/
theorem TableInv.aside (h : TableInv o s entries) {x : ℕ} (hx : x ∉ entries)
    (hothers : ∀ t' ≠ t, (s.threads t').made ≠ some x) (htable : s'.heap.table = s.heap.table)
    (hkeep : ∀ a ≠ x, s'.heap.allocators a = s.heap.allocators a)
    (hthreads : s'.threads = Function.update s.threads t pc)
    (hmade : ∀ a, pc.made = some a → a = x ∧ s'.heap.allocators x ≠ none)
    (hok : pc.Ok o s'.heap entries) (hreturned : ∀ a ∈ s'.returned, a ∈ entries) :
    TableInv o s' entries := by
  have hentry {a : ℕ} (ha : a ∈ entries) : a ≠ x := by
    rintro rfl
    exact hx ha
  have hkeepSize {a : ℕ} (ha : a ≠ x) : s'.heap.getBlockSize a = s.heap.getBlockSize a := by
    unfold Xheap.getBlockSize
    rw [hkeep a ha]
  -- what a thread has made is this allocator, or it was made before
  have hcases {t' a : ℕ} (ha : (s'.threads t').made = some a) :
      t' = t ∧ a = x ∧ s'.heap.allocators x ≠ none ∨
        t' ≠ t ∧ a ≠ x ∧ (s.threads t').made = some a := by
    rw [hthreads] at ha
    by_cases ht : t' = t
    · subst ht
      rw [Function.update_self] at ha
      exact Or.inl ⟨rfl, hmade a ha⟩
    · rw [Function.update_of_ne ht] at ha
      refine Or.inr ⟨ht, ?_, ha⟩
      rintro rfl
      exact hothers t' ht ha
  refine ⟨?_, ?_, ?_, ?_, ?_, ?_, ?_, hreturned⟩
  · obtain ⟨n, hslots⟩ := h.lists
    exact ⟨n, htable.trans hslots⟩
  · have hmap : entries.map s'.heap.getBlockSize = entries.map s.heap.getBlockSize :=
      List.map_congr_left fun a ha => hkeepSize (hentry ha)
    rw [hmap]
    exact h.distinct
  · intro a ha
    rw [hkeep a (hentry ha)]
    exact h.live a ha
  · intro a ha
    rw [hkeepSize (hentry ha)]
    exact h.wide a ha
  · intro t' a ha
    rcases hcases ha with ⟨-, rfl, hlive⟩ | ⟨-, hne, ha⟩
    · exact ⟨hx, hlive⟩
    · rw [hkeep a hne]
      exact h.made t' a ha
  · intro t₁ t₂ a h₁ h₂
    rcases hcases h₁ with ⟨ht₁, rfl, -⟩ | ⟨-, hne, h₁⟩
    · rcases hcases h₂ with ⟨ht₂, -, -⟩ | ⟨-, hne, -⟩
      · exact ht₁.trans ht₂.symm
      · exact absurd rfl hne
    · rcases hcases h₂ with ⟨-, rfl, -⟩ | ⟨-, -, h₂⟩
      · exact absurd rfl hne
      · exact h.once t₁ t₂ a h₁ h₂
  · intro t'
    rw [hthreads]
    by_cases ht : t' = t
    · subst ht
      rw [Function.update_self]
      exact hok
    · rw [Function.update_of_ne ht]
      refine (h.threads t').mono (fun _ ha => ha) (fun a ha => hkeepSize (hentry ha)) ?_
      intro a ha
      refine hkeepSize ?_
      rintro rfl
      exact hothers t' ht ha

theorem TableInv.create (h : TableInv o s entries) {call : XallocCall} {fresh : ℕ}
    (hpc : s.threads t = .create call) (hfresh : s.heap.allocators fresh = none) :
    TableInv o ({ s with heap := s.heap.newAllocator o (o.blockSize call.size) fresh }.goto t
      (.insert call fresh)) entries := by
  have hfit : o.Fits call.size := h.ok hpc
  have hset : (s.heap.newAllocator o (o.blockSize call.size) fresh).allocators fresh =
      some (.construct o.target (o.blockSize call.size) 0 none 0) :=
    Xheap.allocators_setAllocator_self ..
  have hsize : (s.heap.newAllocator o (o.blockSize call.size) fresh).getBlockSize fresh =
      o.blockSize call.size := by
    rw [Xheap.getBlockSize_of hset, Xheap.blockSize_construct]
    have hle := XallocOptions.blockSize_of_fits hfit
    have hheader := o.pointer_lt_headerSize
    omega
  refine h.aside (fun hmem => h.live fresh hmem hfresh) (t := t) ?_ rfl
    (fun a ha => Xheap.allocators_setAllocator_of_ne ha _) rfl ?_ ⟨hfit, hsize⟩ h.returned
  · exact fun t' _ hmade => (h.made t' fresh hmade).2 hfresh
  · intro a ha
    refine ⟨(Option.some.inj ha).symm, ?_⟩
    show (s.heap.newAllocator o (o.blockSize call.size) fresh).allocators fresh ≠ none
    rw [hset]
    exact Option.some_ne_none _

/-- The allocator that was not needed is deleted. -/
theorem TableInv.discard (h : TableInv o s entries) (pc : XThread) {a : ℕ}
    (hmade : (s.threads t).made = some a)
    (hpc : pc.made = none) (hok : pc.Ok o s.heap entries) {returned : List ℕ}
    (hreturned : ∀ b ∈ returned, b ∈ entries) :
    TableInv o ({ s with heap := s.heap.deleteAllocator a, returned := returned }.goto t pc)
      entries := by
  obtain ⟨hnot, -⟩ := h.made t a hmade
  have hkeep (b : ℕ) (hb : b ≠ a) :
      (s.heap.deleteAllocator a).allocators b = s.heap.allocators b :=
    Xheap.allocators_setAllocator_of_ne hb _
  refine h.aside hnot (t := t) ?_ rfl hkeep rfl ?_ ?_ hreturned
  · exact fun t' ht hb => ht (h.once t' t a hb hmade)
  · intro b hb
    rw [hpc] at hb
    cases hb
  · refine hok.mono (fun _ hb => hb) (fun b hb => ?_) (by simp [hpc])
    have hne : b ≠ a := by
      rintro rfl
      exact hnot hb
    show (s.heap.deleteAllocator a).getBlockSize b = s.heap.getBlockSize b
    unfold Xheap.getBlockSize
    rw [hkeep b hne]

/-- The allocator that a thread has made goes to the table, as there is none of its
block size. -/
theorem TableInv.insert (h : TableInv o s entries) {call : XallocCall} {a : ℕ} {heap : Xheap}
    (hpc : s.threads t = .insert call a)
    (hfind : s.heap.findAllocator (o.blockSize call.size) = none)
    (hins : s.heap.insertAllocator a = some heap) :
    TableInv o ({ s with heap := heap }.got t call a) (entries ++ [a]) := by
  obtain ⟨hlists, hallocators, -, -⟩ := h.lists.insertAllocator hins
  obtain ⟨hfit, hsize⟩ := h.ok hpc
  have hown : (s.threads t).made = some a := congrArg XThread.made hpc
  obtain ⟨hnot, hlive⟩ := h.made t a hown
  have hkeep (b : ℕ) : heap.getBlockSize b = s.heap.getBlockSize b := by
    unfold Xheap.getBlockSize
    rw [hallocators]
  have hroom := XThread.room_of_fits (h := s.heap) hfit hsize
  -- behind this step the thread has made nothing
  have hmade {t' b : ℕ}
      (hb : (({ s with heap := heap }.got t call a).threads t').made = some b) :
      (s.threads t').made = some b ∧ b ≠ a := by
    by_cases ht : t' = t
    · subst ht
      simp only [XallocSystem.got, goto, Function.update_self] at hb
      cases call <;> cases hb
    · simp only [XallocSystem.got, goto, Function.update_of_ne ht] at hb
      refine ⟨hb, ?_⟩
      rintro rfl
      exact ht (h.once t' t b hb hown)
  refine ⟨hlists, ?_, ?_, ?_, ?_, ?_, ?_, ?_⟩
  · show ((entries ++ [a]).map heap.getBlockSize).Nodup
    rw [funext hkeep, List.map_append, List.map_singleton]
    -- the second look has found no entry of this block size
    refine List.nodup_append.mpr ⟨h.distinct, List.nodup_singleton _, ?_⟩
    intro size hmem size' hmem'
    obtain ⟨b, hb, rfl⟩ := List.mem_map.mp hmem
    rw [List.mem_singleton.mp hmem', hsize]
    exact h.lists.getBlockSize_ne hfind b hb
  · intro b hb
    show heap.allocators b ≠ none
    rw [hallocators]
    rcases List.mem_append.mp hb with hb | hb
    · exact h.live b hb
    · rw [List.mem_singleton.mp hb]
      exact hlive
  · intro b hb
    show o.target.pointer ≤ heap.getBlockSize b
    rw [hkeep]
    rcases List.mem_append.mp hb with hb | hb
    · exact h.wide b hb
    · have hheader := o.pointer_lt_headerSize
      rw [List.mem_singleton.mp hb]
      unfold XThread.Room at hroom
      omega
  · intro t' b hb
    obtain ⟨hb, hne⟩ := hmade hb
    obtain ⟨hnot', hlive'⟩ := h.made t' b hb
    refine ⟨?_, ?_⟩
    · simp [hnot', hne]
    · show heap.allocators b ≠ none
      rwa [hallocators]
  · exact fun t₁ t₂ b h₁ h₂ => h.once t₁ t₂ b (hmade h₁).1 (hmade h₂).1
  · intro t'
    have hgrow (b : ℕ) (hb : b ∈ entries) : b ∈ entries ++ [a] := List.mem_append_left _ hb
    by_cases ht : t' = t
    · subst ht
      simp only [XallocSystem.got, goto, Function.update_self]
      cases call with
      | getAllocator size => trivial
      | malloc size =>
        refine ⟨by simp, ?_⟩
        unfold XThread.Room
        rw [hkeep]
        exact hroom
    · simp only [XallocSystem.got, goto, Function.update_of_ne ht]
      exact (h.threads t').mono hgrow (fun b _ => hkeep b) fun b _ => hkeep b
  · intro b hb
    rcases List.mem_append.mp hb with hb | hb
    · exact List.mem_append_left _ (h.returned b hb)
    · exact List.mem_append_right _ hb

theorem TableInv.lookup (h : TableInv o s entries) {call : XallocCall} (hfit : o.Fits call.size) :
    TableInv o (update o (.lookup t call) s) entries := by
  simp only [update]
  split
  · rename_i a hfind
    obtain ⟨hmem, hsize⟩ := Xheap.findIn_eq_some hfind
    exact h.got (h.lists.mem_iff.mp hmem) (XThread.room_of_fits hfit hsize)
  · refine h.same t (.create call) (.refl s.heap) rfl hfit ?_ h.returned
    intro a ha
    cases ha

/-- The second look at the table. -/
theorem TableInv.relook (h : TableInv o s entries) {call : XallocCall} {a : ℕ}
    (hpc : s.threads t = .insert call a) :
    ∃ entries', TableInv o (update o (.insert t) s) entries' := by
  obtain ⟨hfit, hsize⟩ := h.ok hpc
  have hmade : (s.threads t).made = some a := congrArg XThread.made hpc
  simp only [update, hpc]
  split
  · rename_i existing hfind
    obtain ⟨hmem, hexisting⟩ := Xheap.findIn_eq_some hfind
    replace hmem := h.lists.mem_iff.mp hmem
    -- a thread's own allocator is not in the table
    have hne : existing ≠ a := by
      rintro rfl
      exact (h.made t existing hmade).1 hmem
    rw [if_pos hne]
    refine ⟨entries, h.same t (.discard call a (some existing)) (.refl s.heap) rfl ?_
      (fun b hb => hmade.trans hb) h.returned⟩
    intro b hb
    obtain rfl := Option.some.inj hb
    exact ⟨hmem, XThread.room_of_fits hfit hexisting⟩
  · rename_i hfind
    split
    · rename_i heap hins
      exact ⟨entries ++ [a], h.insert hpc hfind hins⟩
    · refine ⟨entries, h.same t (.discard call a none) (.refl s.heap) rfl ?_
        (fun b hb => hmade.trans hb) h.returned⟩
      intro b hb
      cases hb

theorem TableInv.discarded (h : TableInv o s entries) {call : XallocCall} {a : ℕ}
    {existing : Option ℕ} (hpc : s.threads t = .discard call a existing) :
    TableInv o (update o (.discard t) s) entries := by
  have hok := h.ok hpc
  have hmade : (s.threads t).made = some a := congrArg XThread.made hpc
  simp only [update, hpc]
  cases existing with
  | none => exact h.discard .aborted hmade rfl trivial h.returned
  | some b =>
    obtain ⟨hb, hroom⟩ := hok b rfl
    have hreturned : ∀ c ∈ s.returned ++ [b], c ∈ entries := by
      intro c hc
      rcases List.mem_append.mp hc with hc | hc
      · exact h.returned c hc
      · rw [List.mem_singleton.mp hc]
        exact hb
    cases call with
    | getAllocator size => exact h.discard .idle hmade rfl trivial hreturned
    | malloc size => exact h.discard (.pop size b) hmade rfl ⟨hb, hroom⟩ hreturned

/-- The steps behind `xallocator_get_allocator` keep the table. -/
theorem TableInv.blockStep (h : TableInv o s entries) (t : ℕ) (pc : XThread)
    (hsame : Xheap.SameTable s.heap s'.heap)
    (hthreads : s'.threads = Function.update s.threads t pc) (hok : pc.Ok o s.heap entries)
    (hmade : pc.made = none) (hreturned : s'.returned = s.returned) : TableInv o s' entries := by
  refine h.same t pc hsame hthreads hok ?_ ?_
  · intro a ha
    rw [hmade] at ha
    cases ha
  · rw [hreturned]
    exact h.returned

theorem TableInv.pop (h : TableInv o s entries) {size a : ℕ} (hpc : s.threads t = .pop size a) :
    TableInv o (update o (.pop t) s) entries := by
  have hsame := Xheap.sameTable_pop (o := o) s.heap a
  have hok := h.ok hpc
  simp only [update, hpc]
  split
  · rename_i block heap hpop
    rw [hpop] at hsame
    exact h.blockStep t (.stamp size a block) hsame rfl hok rfl rfl
  · rename_i heap hpop
    rw [hpop] at hsame
    exact h.blockStep t (.newBlock size a) hsame rfl hok rfl rfl

/-- `xfree` takes the allocator from the header. -/
theorem TableInv.free (h : TableInv o s entries) {ptr size : ℕ}
    (hheader : ∀ a, s.heap.getBlockAllocator o (Xheap.getBlockPtr o ptr) = some a →
      a ∈ entries) : TableInv o (update o (.free t ptr size) s) entries := by
  simp only [update]
  split
  · rename_i a hget
    exact h.blockStep t (.deallocate a _) (Xheap.sameTable_mark s.heap _) rfl (hheader a hget)
      rfl rfl
  · exact h.blockStep t .aborted (.refl s.heap) rfl trivial rfl rfl

/-- One step, given that the headers of owned blocks name allocators of the table. -/
theorem TableInv.step (h : TableInv o s entries) (hg : guard o l s) (hfit : SizesFit o l s)
    (hheaders : ∀ ptr size a, (ptr, size) ∈ s.owned →
      s.heap.getBlockAllocator o (Xheap.getBlockPtr o ptr) = some a → a ∈ entries) :
    ∃ entries', TableInv o (update o l s) entries' := by
  cases l with
  | lookup t call => exact ⟨entries, h.lookup hfit⟩
  | create t fresh =>
    obtain ⟨call, hpc, hfresh⟩ := guard_create hg
    refine ⟨entries, ?_⟩
    simp only [update, hpc]
    exact h.create hpc hfresh
  | insert t =>
    obtain ⟨call, a, hpc⟩ := guard_insert hg
    exact h.relook hpc
  | discard t =>
    obtain ⟨call, a, existing, hpc⟩ := guard_discard hg
    exact ⟨entries, h.discarded hpc⟩
  | pop t =>
    obtain ⟨size, a, hpc⟩ := guard_pop hg
    exact ⟨entries, h.pop hpc⟩
  | newBlock t fresh =>
    obtain ⟨size, a, hpc, -⟩ := guard_newBlock hg
    have hok := h.ok hpc
    refine ⟨entries, ?_⟩
    simp only [update, hpc]
    exact h.blockStep t (.account size a fresh) (Xheap.sameTable_new s.heap a fresh) rfl hok
      rfl rfl
  | account t =>
    obtain ⟨size, a, block, hpc⟩ := guard_account hg
    have hok := h.ok hpc
    refine ⟨entries, ?_⟩
    simp only [update, hpc]
    exact h.blockStep t (.stamp size a block) (Xheap.sameTable_account s.heap a) rfl hok rfl rfl
  | stamp t =>
    obtain ⟨size, a, block, hpc⟩ := guard_stamp hg
    refine ⟨entries, ?_⟩
    simp only [update, hpc]
    exact h.blockStep t .idle (Xheap.sameTable_stamp s.heap block a) rfl trivial rfl rfl
  | free t ptr size => exact ⟨entries, h.free fun a hget => hheaders ptr size a hg.2 hget⟩
  | deallocate t =>
    obtain ⟨a, block, hpc⟩ := guard_deallocate hg
    refine ⟨entries, ?_⟩
    simp only [update, hpc]
    exact h.blockStep t .idle (Xheap.sameTable_deallocate s.heap a block) rfl trivial rfl rfl
  | write ptr size x c =>
    -- callers write into their blocks, and the table is in none of them
    refine ⟨entries, h.same 0 (s.threads 0) ⟨rfl, fun _ => rfl⟩ ?_ (h.threads 0)
      (fun a ha => ha) h.returned⟩
    exact (Function.update_eq_self 0 s.threads).symm

end XallocSystem

end AsyncSqlite
