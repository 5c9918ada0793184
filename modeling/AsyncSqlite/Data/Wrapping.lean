import Mathlib.Algebra.Group.Nat.Defs
import Mathlib.Tactic.Common

/-!
# AsyncSqlite.Data.Wrapping — differences of truncated counters

Two unbounded counts are cut to `w` bits and subtracted. As a signed number the
result is the difference if that is less than half of the range
(`toInt_ofNat_sub`), as an unsigned one it is the difference modulo the range
(`toNat_ofNat_sub`).
-/

namespace AsyncSqlite

variable {w n m : ℕ}

theorem ofInt_sub_natCast (n m : ℕ) :
    BitVec.ofInt w ((n : ℤ) - m) = BitVec.ofNat w n - BitVec.ofNat w m := by
  rw [Int.sub_eq_add_neg, BitVec.ofInt_add, BitVec.ofInt_neg, BitVec.ofInt_natCast,
    BitVec.ofInt_natCast, ← BitVec.sub_eq_add_neg]

theorem toInt_ofNat_sub (hw : 0 < w) (hlow : m < n + 2 ^ (w - 1)) (hhigh : n < m + 2 ^ (w - 1)) :
    (BitVec.ofNat w n - BitVec.ofNat w m).toInt = (n : ℤ) - m := by
  rw [← ofInt_sub_natCast]
  have hlow' : (m : ℤ) < n + 2 ^ (w - 1) := by exact_mod_cast hlow
  have hhigh' : (n : ℤ) < m + 2 ^ (w - 1) := by exact_mod_cast hhigh
  apply BitVec.toInt_ofInt_eq_self hw
  · omega
  · omega

theorem toNat_ofNat_sub (hle : m ≤ n) :
    (BitVec.ofNat w n - BitVec.ofNat w m).toNat = (n - m) % 2 ^ w := by
  have hsub : BitVec.ofNat w n - BitVec.ofNat w m = BitVec.ofNat w (n - m) := by
    rw [← ofInt_sub_natCast, ← Int.natCast_sub hle, BitVec.ofInt_natCast]
  rw [hsub, BitVec.toNat_ofNat]

end AsyncSqlite
