import AsyncSqlite.Data.Verdicts
import AsyncSqlite.Data.Wrapping

/-!
# AsyncSqlite.Databus.MonotonicGuard — newer messages across rollover

`MonotonicGuard<T>` for an unsigned `T` of `w` bits. The law it stands for knows the
numbers before they were cut to `w` bits (`newer`). The guard gives the verdicts of
the law as long as no arrival is half of the range or more away from the last one
that was accepted, and for wide types as long as no number was cut (`isNewer_exact`).
-/

namespace AsyncSqlite

structure MonotonicGuard (w : ℕ) where
  lastTimestamp : BitVec w := 0
  first : Bool := true

namespace MonotonicGuard

variable {w : ℕ}

/-- `timestamp - m_lastTimestamp`, which is an `int` for types that are narrower. -/
def difference (timestamp last : BitVec w) : ℤ :=
  if w < 32 then (timestamp.toNat : ℤ) - last.toNat else ((timestamp - last).toNat : ℤ)

/-- `static_cast<SignedT>` -/
def signedT (w : ℕ) (d : ℤ) : ℤ := (BitVec.ofInt w d).toInt

def isNewer (g : MonotonicGuard w) (timestamp : BitVec w) : Bool × MonotonicGuard w :=
  if g.first then (true, { lastTimestamp := timestamp, first := false })
  -- `sizeof(T) <= 4`
  else if w ≤ 32 then
    if signedT w (difference timestamp g.lastTimestamp) > 0 then
      (true, { g with lastTimestamp := timestamp })
    else (false, g)
  else if timestamp.toNat > g.lastTimestamp.toNat then
    (true, { g with lastTimestamp := timestamp })
  else (false, g)

def reset (_ : MonotonicGuard w) : MonotonicGuard w := { lastTimestamp := 0, first := true }

/-- `IsNewer` with an unbounded number, which the message carries truncated. -/
def receive (g : MonotonicGuard w) (n : ℕ) : Bool × MonotonicGuard w := g.isNewer (BitVec.ofNat w n)

/-- A promoted difference and an unsigned one are the same number of the signed type. -/
theorem signedT_difference (timestamp last : BitVec w) :
    signedT w (difference timestamp last) = (timestamp - last).toInt := by
  unfold signedT difference
  split
  · rw [ofInt_sub_natCast, BitVec.ofNat_toNat, BitVec.ofNat_toNat, BitVec.setWidth_eq,
      BitVec.setWidth_eq]
  · rw [BitVec.ofInt_natCast, BitVec.ofNat_toNat, BitVec.setWidth_eq]

/-! ## The law -/

/-- The first message, and every later one with a greater number than the last accepted. -/
def newer (last : Option ℕ) (n : ℕ) : Bool := last.all fun m => m < n

/-- How far an arrival may be from the last accepted one. -/
def Near (w : ℕ) (last : Option ℕ) (n : ℕ) : Prop :=
  if w ≤ 32 then ∀ m ∈ last, n < m + 2 ^ (w - 1) ∧ m < n + 2 ^ (w - 1) else n < 2 ^ w

instance (w : ℕ) (last : Option ℕ) (n : ℕ) : Decidable (Near w last n) :=
  inferInstanceAs (Decidable (if w ≤ 32 then
    ∀ m ∈ last, n < m + 2 ^ (w - 1) ∧ m < n + 2 ^ (w - 1) else n < 2 ^ w))

/-- What the guard knows about the last accepted number. -/
structure Tracks (g : MonotonicGuard w) (last : Option ℕ) : Prop where
  first : g.first = last.isNone
  lastTimestamp : ∀ m ∈ last, g.lastTimestamp = BitVec.ofNat w m
  uncut : 32 < w → ∀ m ∈ last, m < 2 ^ w

theorem Tracks.start : Tracks ({} : MonotonicGuard w) none := by
  constructor
  · rfl
  · intro m hm
    cases hm
  · intro _ m hm
    cases hm

theorem Tracks.accept {n : ℕ} (hn : 32 < w → n < 2 ^ w) :
    Tracks ({ lastTimestamp := BitVec.ofNat w n, first := false } : MonotonicGuard w) (some n) := by
  constructor
  · rfl
  · intro m hm
    cases hm
    rfl
  · intro hw m hm
    cases hm
    exact hn hw

/-- After the first message the guard compares, and it keeps its state when it rejects. -/
theorem receive_of_some {g : MonotonicGuard w} {m n : ℕ} (ht : Tracks g (some m)) :
    g.receive n =
      if (if w ≤ 32 then 0 < (BitVec.ofNat w n - BitVec.ofNat w m).toInt
          else (BitVec.ofNat w m).toNat < (BitVec.ofNat w n).toNat) then
        (true, { lastTimestamp := BitVec.ofNat w n, first := false })
      else (false, g) := by
  have hfirst : g.first = false := ht.first
  have hlast : g.lastTimestamp = BitVec.ofNat w m := ht.lastTimestamp m rfl
  unfold receive isNewer
  rw [hfirst, hlast, signedT_difference]
  simp only [Bool.false_eq_true, if_false, gt_iff_lt]
  split <;> rfl

/-- Both comparisons are those of the unbounded numbers. -/
theorem compare_iff (hw : 0 < w) {g : MonotonicGuard w} {m n : ℕ} (ht : Tracks g (some m))
    (hnear : Near w (some m) n) :
    (if w ≤ 32 then 0 < (BitVec.ofNat w n - BitVec.ofNat w m).toInt
      else (BitVec.ofNat w m).toNat < (BitVec.ofNat w n).toNat) ↔ m < n := by
  unfold Near at hnear
  split
  case isTrue hle =>
    rw [if_pos hle] at hnear
    have ⟨hhigh, hlow⟩ := hnear m rfl
    rw [toInt_ofNat_sub hw hlow hhigh]
    omega
  case isFalse hgt =>
    rw [if_neg hgt] at hnear
    have hm : m < 2 ^ w := ht.uncut (by omega) m rfl
    rw [BitVec.toNat_ofNat, BitVec.toNat_ofNat, Nat.mod_eq_of_lt hm, Nat.mod_eq_of_lt hnear]

theorem Tracks.receive (hw : 0 < w) {g : MonotonicGuard w} {last : Option ℕ} {n : ℕ}
    (ht : Tracks g last) (hnear : Near w last n) :
    (g.receive n).1 = newer last n ∧ Tracks (g.receive n).2 (judge newer last n).2 := by
  have huncut : 32 < w → n < 2 ^ w := by
    intro hwide
    unfold Near at hnear
    rwa [if_neg (by omega)] at hnear
  cases last with
  | none =>
    have hfirst : g.first = true := ht.first
    have hrec : g.receive n = (true, { lastTimestamp := BitVec.ofNat w n, first := false }) := by
      unfold MonotonicGuard.receive isNewer
      rw [hfirst]
      rfl
    rw [hrec]
    exact ⟨rfl, Tracks.accept huncut⟩
  | some m =>
    rw [receive_of_some ht]
    simp only [compare_iff hw ht hnear, judge, newer, Option.all_some, decide_eq_true_eq]
    split
    case isTrue hlt => exact ⟨(decide_eq_true hlt).symm, Tracks.accept huncut⟩
    case isFalse hle => exact ⟨(decide_eq_false hle).symm, ht⟩

/-! ## Streams -/

theorem Tracks.verdicts_eq (hw : 0 < w) {g : MonotonicGuard w} {last : Option ℕ} {ns : List ℕ}
    (ht : Tracks g last) (hnear : Along newer (Near w) last ns) :
    verdicts MonotonicGuard.receive g ns = verdicts (judge newer) last ns := by
  apply AsyncSqlite.verdicts_eq _ ht hnear
  intro g last n ht hn
  exact ht.receive hw hn

/-- Whatever the guard has seen before `Reset`, the next stream is a first one. -/
theorem verdicts_reset (hw : 0 < w) (g : MonotonicGuard w) (ns : List ℕ)
    (hnear : Along newer (Near w) none ns) :
    verdicts receive g.reset ns = verdicts (judge newer) none ns := by
  have hreset : Tracks g.reset none := Tracks.start
  exact hreset.verdicts_eq hw hnear

/-- A stream may wrap any number of times and go back. -/
theorem isNewer_exact (hw : 0 < w) (ns : List ℕ) (hnear : Along newer (Near w) none ns) :
    verdicts receive ({} : MonotonicGuard w) ns = verdicts (judge newer) none ns := by
  have hstart : Tracks ({} : MonotonicGuard w) none := Tracks.start
  exact hstart.verdicts_eq hw hnear

/-- A byte that wraps twice and goes back in between. -/
theorem isNewer_exact_wraps :
    verdicts receive ({} : MonotonicGuard 8) [250, 300, 290, 420, 545, 545] =
      [true, true, false, true, true, false] :=
  (isNewer_exact (by decide) _ (by decide)).trans (by decide)

end MonotonicGuard

end AsyncSqlite
