import AsyncSqlite.Allocator.Model
import AsyncSqlite.Data.Smear

/-!
# AsyncSqlite.Allocator.Sizes — from a requested size to a block size

`xallocator_get_allocator` adds a header and a footer to the size and rounds up to
a power of two, all in `size_t`. Up to half of its range the result is large
enough; above, each of the two steps can wrap, and the block is too small for its
own header (`fits_iff`).
-/

namespace AsyncSqlite

/-- How `xallocator.cpp` is built. -/
structure XallocOptions where
  target : Target
  /-- `DMQ_ALLOCATOR_SAFEGUARDS` -/
  safeguards : Bool
  /-- `MAX_ALLOCATORS` -/
  maxAllocators : ℕ

namespace XallocOptions

/-- `XALLOC_BLOCK_HEADER_SIZE` -/
def headerSize (o : XallocOptions) : ℕ :=
  if o.safeguards then 16 else if 4 < o.target.pointer then 16 else 8

/-- `XALLOC_BLOCK_FOOTER_SIZE` -/
def footerSize (o : XallocOptions) : ℕ := if o.safeguards then 4 else 0

theorem pointer_lt_headerSize (o : XallocOptions) : o.target.pointer < o.headerSize := by
  obtain ⟨_ | _, _ | _, n⟩ := o <;> simp [headerSize, Target.pointer]

/-- The words of the safeguards lie in the header, behind the pointer. -/
theorem pointer_add_le_headerSize (o : XallocOptions) (h : o.safeguards = true) :
    o.target.pointer + 8 ≤ o.headerSize ∧ o.footerSize = 4 := by
  unfold headerSize footerSize
  rw [if_pos h, if_pos h]
  cases o.target <;> decide

theorem sizes_le (o : XallocOptions) : o.headerSize + o.footerSize ≤ 20 := by
  obtain ⟨_ | _, _ | _, n⟩ := o <;> simp [headerSize, footerSize, Target.pointer]

end XallocOptions

namespace Target

/-- The values that `i` takes in `nexthigher`. -/
def shifts : Target → List ℕ
  | .bits32 => [1, 2, 4, 8, 16]
  | .bits64 => [1, 2, 4, 8, 16, 32]

/-- The number of bits of `size_t`, as a power of two. -/
def logBits : Target → ℕ
  | .bits32 => 5
  | .bits64 => 6

theorem shifts_eq (T : Target) : T.shifts = doublings T.logBits := by
  cases T <;> decide

theorem sizeT_eq (T : Target) : T.sizeT = 2 ^ 2 ^ T.logBits := by
  cases T <;> rfl

theorem large (T : Target) : 2 ^ 32 ≤ T.sizeT := by
  cases T <;> decide

end Target

/-- `nexthigher<size_t>` -/
def nexthigher (T : Target) (k : ℕ) : ℕ :=
  let k := (k + (T.sizeT - 1)) % T.sizeT
  let k := smear k T.shifts
  (k + 1) % T.sizeT

section Nexthigher

variable {T : Target} {k : ℕ}

theorem nexthigher_succ (hk : k + 1 < T.sizeT) :
    nexthigher T (k + 1) = (smear k (doublings T.logBits) + 1) % T.sizeT := by
  have hpred : (k + 1 + (T.sizeT - 1)) % T.sizeT = k := by
    rw [show k + 1 + (T.sizeT - 1) = k + T.sizeT by omega, Nat.add_mod_right]
    exact Nat.mod_eq_of_lt (by omega)
  simp only [nexthigher, hpred, T.shifts_eq]

/-- Up to half of the range, the next power of two. -/
theorem nexthigher_of_le (hpos : 0 < k) (hle : 2 * k ≤ T.sizeT) :
    k ≤ nexthigher T k ∧ nexthigher T k < 2 * k := by
  obtain ⟨k, rfl⟩ : ∃ j, k = j + 1 := ⟨k - 1, by omega⟩
  have hlarge := T.large
  rw [nexthigher_succ (by omega)]
  rcases Nat.eq_zero_or_pos k with rfl | hk
  · rw [smear_zero, Nat.mod_eq_of_lt (by omega)]
    omega
  · have hlow := Nat.log2_self_le (Nat.ne_of_gt hk)
    have hhigh : k < 2 ^ (k.log2 + 1) := Nat.lt_log2_self
    have hlt : k < 2 ^ 2 ^ T.logBits := by
      rw [← T.sizeT_eq]
      omega
    rw [smear_eq (Nat.ne_of_gt hk) hlt, Nat.sub_add_cancel Nat.one_le_two_pow]
    rw [Nat.pow_succ] at hhigh ⊢
    rw [Nat.mod_eq_of_lt (by omega)]
    omega

/-- Above half of the range it wraps. -/
theorem nexthigher_of_gt (hgt : T.sizeT < 2 * k) (hlt : k < T.sizeT) : nexthigher T k = 0 := by
  obtain ⟨k, rfl⟩ : ∃ j, k = j + 1 := ⟨k - 1, by omega⟩
  have hlarge := T.large
  have hk : k ≠ 0 := by
    omega
  have hlt' : k < 2 ^ 2 ^ T.logBits := by
    rw [← T.sizeT_eq]
    omega
  rw [nexthigher_succ hlt, smear_eq hk hlt', Nat.sub_add_cancel Nat.one_le_two_pow]
  have hlog : k.log2 + 1 = 2 ^ T.logBits := by
    have hle : k.log2 < 2 ^ T.logBits := (Nat.log2_lt hk).mpr hlt'
    by_contra hne
    -- the leading bit would be below the last one
    have hsmall : 2 ^ (k.log2 + 1 + 1) ≤ 2 ^ 2 ^ T.logBits :=
      Nat.pow_le_pow_right Nat.two_pos (by omega)
    have hhigh : k < 2 ^ (k.log2 + 1) := Nat.lt_log2_self
    rw [Nat.pow_succ, ← T.sizeT_eq] at hsmall
    omega
  rw [hlog, ← T.sizeT_eq]
  exact Nat.mod_self _

theorem nexthigher_zero (T : Target) : nexthigher T 0 = 0 := by
  cases T <;> decide +kernel

/-- A small number does not wrap. -/
theorem nexthigher_le_of_lt (hk : k < 20) : nexthigher T k < 40 := by
  have hlarge := T.large
  rcases Nat.eq_zero_or_pos k with rfl | hpos
  · rw [nexthigher_zero]
    decide
  · have := (nexthigher_of_le (T := T) hpos (by omega)).2
    omega

end Nexthigher

namespace XallocOptions

variable {o : XallocOptions} {size : ℕ}

/-- `blockSize` in `xallocator_get_allocator`. -/
def blockSize (o : XallocOptions) (size : ℕ) : ℕ :=
  nexthigher o.target ((size + o.headerSize + o.footerSize) % o.target.sizeT)

/-- The size with its header and footer is at most half of the range of `size_t`. -/
def Fits (o : XallocOptions) (size : ℕ) : Prop :=
  2 * (size + o.headerSize + o.footerSize) ≤ o.target.sizeT

instance (o : XallocOptions) (size : ℕ) : Decidable (o.Fits size) :=
  inferInstanceAs (Decidable (_ ≤ _))

theorem blockSize_of_fits (h : o.Fits size) :
    size + o.headerSize + o.footerSize ≤ o.blockSize size := by
  have hheader := o.pointer_lt_headerSize
  have hlarge := o.target.large
  unfold Fits at h
  unfold blockSize
  rw [Nat.mod_eq_of_lt (by omega)]
  exact (nexthigher_of_le (by omega) h).1

/-- An allocator never has blocks that are smaller than a pointer. -/
theorem fits_iff (hsize : size < o.target.sizeT) :
    size + o.headerSize + o.footerSize ≤ max (o.blockSize size) o.target.pointer ↔
      o.Fits size := by
  have hheader := o.pointer_lt_headerSize
  have hsizes := o.sizes_le
  have hlarge := o.target.large
  constructor
  · intro hle
    by_contra hfit
    unfold Fits at hfit
    unfold blockSize at hle
    rcases Nat.lt_or_ge (size + o.headerSize + o.footerSize) o.target.sizeT with hlt | hge
    · rw [Nat.mod_eq_of_lt hlt, nexthigher_of_gt (by omega) hlt] at hle
      omega
    · -- the sum has wrapped
      have hmod : (size + o.headerSize + o.footerSize) % o.target.sizeT =
          size + o.headerSize + o.footerSize - o.target.sizeT := by
        rw [Nat.mod_eq_sub_mod hge]
        exact Nat.mod_eq_of_lt (by omega)
      have hsmall := nexthigher_le_of_lt (T := o.target)
        (k := size + o.headerSize + o.footerSize - o.target.sizeT) (by omega)
      rw [hmod] at hle
      omega
  · intro h
    exact (blockSize_of_fits h).trans (Nat.le_max_left _ _)

end XallocOptions

end AsyncSqlite
