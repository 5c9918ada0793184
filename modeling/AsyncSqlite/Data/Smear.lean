import Mathlib.Data.List.Range
import Mathlib.Data.Nat.Bitwise
import Mathlib.Tactic.Common

/-!
# AsyncSqlite.Data.Smear — the leading bit, copied down

A number that is or-ed with itself shifted right by 1, 2, 4 and so on has a bit
set wherever one was set in a window above it (`testBit_smear`). With shifts up to
half of the width the window is the whole number, and what comes out is all ones
up to the leading bit (`smear_eq`).
-/

namespace AsyncSqlite

/-- `k |= k >> i` for every `i` of the list. -/
def smear (k : ℕ) (shifts : List ℕ) : ℕ := shifts.foldl (fun k i => k ||| k >>> i) k

/-- The shifts 1, 2, 4 and so on, `n` of them. -/
def doublings (n : ℕ) : List ℕ := (List.range n).map (2 ^ ·)

theorem smear_doublings_succ (k n : ℕ) :
    smear k (doublings (n + 1)) =
      smear k (doublings n) ||| smear k (doublings n) >>> 2 ^ n := by
  simp only [smear, doublings, List.range_succ, List.map_append, List.map_cons, List.map_nil,
    List.foldl_append, List.foldl_cons, List.foldl_nil]

/-- Every shift doubles the window. -/
theorem testBit_smear (k n j : ℕ) :
    (smear k (doublings n)).testBit j = true ↔ ∃ d < 2 ^ n, k.testBit (j + d) = true := by
  induction n generalizing j with
  | zero => simp [smear, doublings]
  | succ n ih =>
    rw [smear_doublings_succ, Nat.testBit_or, Nat.testBit_shiftRight, Bool.or_eq_true, ih, ih,
      Nat.pow_succ]
    constructor
    · rintro (⟨d, hd, h⟩ | ⟨d, hd, h⟩)
      · exact ⟨d, by omega, h⟩
      · refine ⟨2 ^ n + d, by omega, ?_⟩
        rwa [← Nat.add_assoc, Nat.add_comm j]
    · rintro ⟨d, hd, h⟩
      rcases Nat.lt_or_ge d (2 ^ n) with hlt | hge
      · exact Or.inl ⟨d, hlt, h⟩
      · refine Or.inr ⟨d - 2 ^ n, by omega, ?_⟩
        rwa [show 2 ^ n + j + (d - 2 ^ n) = j + d by omega]

theorem smear_eq {k n : ℕ} (hk : k ≠ 0) (hlt : k < 2 ^ 2 ^ n) :
    smear k (doublings n) = 2 ^ (k.log2 + 1) - 1 := by
  have hlog : k.log2 < 2 ^ n := (Nat.log2_lt hk).mpr hlt
  refine Nat.eq_of_testBit_eq fun j => ?_
  rw [Nat.testBit_two_pow_sub_one, Bool.eq_iff_iff, testBit_smear, decide_eq_true_iff]
  constructor
  · rintro ⟨d, -, h⟩
    by_contra hge
    -- there is no bit above the leading one
    have hzero : k.testBit (j + d) = false := by
      refine Nat.testBit_lt_two_pow (Nat.lt_log2_self.trans_le ?_)
      exact Nat.pow_le_pow_right (Nat.two_pos) (by omega)
    rw [hzero] at h
    cases h
  · intro hj
    refine ⟨k.log2 - j, by omega, ?_⟩
    rw [show j + (k.log2 - j) = k.log2 by omega]
    exact Nat.testBit_log2 hk

theorem smear_zero (n : ℕ) : smear 0 (doublings n) = 0 := by
  refine Nat.eq_of_testBit_eq fun j => ?_
  rw [Bool.eq_iff_iff, testBit_smear]
  simp

end AsyncSqlite
