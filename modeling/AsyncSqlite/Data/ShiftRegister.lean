import Mathlib.Tactic.Common

/-!
# AsyncSqlite.Data.ShiftRegister — division by a polynomial, bit by bit

A register that moves left by one place and subtracts the polynomial whenever a one
leaves it. A step is linear in exclusive or (`shiftOut_xor`), and as long as only
zeros leave, the register just moves (`shiftOuts_of_clear`). Eight places at once are
therefore the eight steps of the leading bits and a plain shift of the others.
-/

namespace AsyncSqlite

section

variable {w : ℕ} (poly : BitVec w)

/-- One place to the left. -/
def shiftOut (x : BitVec w) : BitVec w := if x.msb then x <<< 1 ^^^ poly else x <<< 1

/-- `n` places to the left. -/
def shiftOuts : ℕ → BitVec w → BitVec w
  | 0, x => x
  | n + 1, x => shiftOuts n (shiftOut poly x)

@[simp] theorem shiftOuts_zero (x : BitVec w) : shiftOuts poly 0 x = x := rfl

theorem shiftOuts_succ (n : ℕ) (x : BitVec w) :
    shiftOuts poly (n + 1) x = shiftOuts poly n (shiftOut poly x) := rfl

theorem shiftOut_xor (x y : BitVec w) :
    shiftOut poly (x ^^^ y) = shiftOut poly x ^^^ shiftOut poly y := by
  unfold shiftOut
  rw [BitVec.msb_xor, BitVec.shiftLeft_xor_distrib]
  cases x.msb <;> cases y.msb <;> simp only [Bool.xor_false, Bool.xor_true, Bool.not_false,
    Bool.not_true, Bool.false_eq_true, if_true, if_false]
  · rw [BitVec.xor_assoc]
  · rw [BitVec.xor_assoc, BitVec.xor_assoc, BitVec.xor_comm poly]
  · -- two ones leave, and what they subtract cancels
    rw [BitVec.xor_assoc, ← BitVec.xor_assoc poly, BitVec.xor_comm poly, BitVec.xor_assoc _ poly,
      BitVec.xor_self, BitVec.xor_zero]

theorem shiftOuts_xor (n : ℕ) (x y : BitVec w) :
    shiftOuts poly n (x ^^^ y) = shiftOuts poly n x ^^^ shiftOuts poly n y := by
  induction n generalizing x y with
  | zero => rfl
  | succ n ih => rw [shiftOuts_succ, shiftOut_xor, ih, ← shiftOuts_succ, ← shiftOuts_succ]

/-- The `n` leading bits are clear. -/
def LeadingClear (n : ℕ) (x : BitVec w) : Prop := ∀ i < n, x.getMsbD i = false

theorem shiftOut_of_clear {n : ℕ} {x : BitVec w} (hx : LeadingClear (n + 1) x) :
    shiftOut poly x = x <<< 1 ∧ LeadingClear n (x <<< 1) := by
  constructor
  · have hmsb : x.msb = false := hx 0 (Nat.succ_pos n)
    rw [shiftOut, hmsb]
    rfl
  · intro i hi
    rw [BitVec.getMsbD_shiftLeft]
    exact hx (i + 1) (Nat.succ_lt_succ hi)

/-- Where only zeros leave, nothing is subtracted. -/
theorem shiftOuts_of_clear {n : ℕ} {x : BitVec w} (hx : LeadingClear n x) :
    shiftOuts poly n x = x <<< n := by
  induction n generalizing x with
  | zero => exact (BitVec.shiftLeft_zero x).symm
  | succ n ih =>
    have ⟨hstep, hclear⟩ := shiftOut_of_clear poly hx
    rw [shiftOuts_succ, hstep, ih hclear, ← BitVec.shiftLeft_add, Nat.add_comm]

end

end AsyncSqlite
