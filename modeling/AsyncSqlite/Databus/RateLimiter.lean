import AsyncSqlite.Data.Verdicts
import AsyncSqlite.Data.Wrapping

/-!
# AsyncSqlite.Databus.RateLimiter — the minimum separation of a subscriber

`detail::RateLimiter<T>` as `InternalSubscribe` wraps it around a function. The clock
is cut to 32 bits, and the time of the last delivery starts as 0. Hence the first
message counts as one that follows a delivery at a multiple of `2 ^ 32` ms, and a
silence of more than `2 ^ 32` ms counts as what is left of it (`OnTime`).
-/

namespace AsyncSqlite

structure RateLimiter where
  minSepRep : BitVec 32
  lastDeliveryRep : BitVec 32 := 0

namespace RateLimiter

/-- `InternalSubscribe` with `qos.minSeparation`, in ms. -/
def ofMinSeparation (minSeparation : ℕ) : RateLimiter where
  minSepRep := BitVec.ofNat 32 minSeparation

/-- `Invoke` when the clock reads `now` ms: whether it calls `m_func`. -/
def invoke (r : RateLimiter) (now : ℕ) : Bool × RateLimiter :=
  let nowRep := BitVec.ofNat 32 now
  if nowRep - r.lastDeliveryRep ≥ r.minSepRep then (true, { r with lastDeliveryRep := nowRep })
  else (false, r)

/-! ## The law -/

/-- The first message, and every later one at least `m` after the last delivered. -/
def separated (m : ℕ) (last : Option ℕ) (now : ℕ) : Bool := last.all fun d => m ≤ now - d

/-- What the limiter takes for the time since the last delivery. -/
def elapsed (last : Option ℕ) (now : ℕ) : ℕ := (now - last.getD 0) % 2 ^ 32

/-- A message that the law delivers is one that the limiter sees in time. -/
def OnTime (m : ℕ) (last : Option ℕ) (now : ℕ) : Prop :=
  separated m last now = true → m ≤ elapsed last now

instance (m : ℕ) (last : Option ℕ) (now : ℕ) : Decidable (OnTime m last now) :=
  inferInstanceAs (Decidable (separated m last now = true → m ≤ elapsed last now))

/-- The limiter has the last delivery, truncated. -/
structure Tracks (m : ℕ) (r : RateLimiter) (last : Option ℕ) : Prop where
  minSepRep : r.minSepRep = BitVec.ofNat 32 m
  lastDeliveryRep : r.lastDeliveryRep = BitVec.ofNat 32 (last.getD 0)

theorem Tracks.start (m : ℕ) : Tracks m (ofMinSeparation m) none := by
  constructor
  · rfl
  · rfl

theorem Tracks.invoke {m : ℕ} (hm : m ≤ 2 ^ 31) {r : RateLimiter} {last : Option ℕ} {now : ℕ}
    (ht : Tracks m r last) (hord : ∀ d ∈ last, d ≤ now) :
    r.invoke now = if m ≤ elapsed last now then
      (true, { r with lastDeliveryRep := BitVec.ofNat 32 now }) else (false, r) := by
  have hle : last.getD 0 ≤ now := by
    cases last with
    | none => exact Nat.zero_le now
    | some d => exact hord d rfl
  have hsep : (BitVec.ofNat 32 m).toNat = m := by
    rw [BitVec.toNat_ofNat, Nat.mod_eq_of_lt (by omega)]
  have hcmp : r.minSepRep ≤ BitVec.ofNat 32 now - r.lastDeliveryRep ↔ m ≤ elapsed last now := by
    rw [ht.minSepRep, ht.lastDeliveryRep, BitVec.le_def, toNat_ofNat_sub hle, hsep, elapsed]
  simp only [RateLimiter.invoke, ge_iff_le, hcmp]

theorem Tracks.deliver {m : ℕ} {r : RateLimiter} {last : Option ℕ} (ht : Tracks m r last)
    (now : ℕ) : Tracks m { r with lastDeliveryRep := BitVec.ofNat 32 now } (some now) := by
  constructor
  · exact ht.minSepRep
  · rfl

/-- The limiter never delivers what the law holds back. -/
theorem separated_of_elapsed {m : ℕ} {last : Option ℕ} {now : ℕ} (h : m ≤ elapsed last now) :
    separated m last now = true := by
  cases last with
  | none => rfl
  | some d => exact decide_eq_true (Nat.le_trans h (Nat.mod_le _ _))

theorem Tracks.step {m : ℕ} (hm : m ≤ 2 ^ 31) {r : RateLimiter} {last : Option ℕ} {now : ℕ}
    (ht : Tracks m r last) (hord : ∀ d ∈ last, d ≤ now) (hon : OnTime m last now) :
    (r.invoke now).1 = separated m last now ∧
      Tracks m (r.invoke now).2 (judge (separated m) last now).2 := by
  rw [ht.invoke hm hord]
  by_cases h : m ≤ elapsed last now
  · rw [if_pos h, judge, separated_of_elapsed h]
    exact ⟨rfl, ht.deliver now⟩
  · have hheld : separated m last now = false := by
      rw [← Bool.not_eq_true]
      intro hsep
      exact h (hon hsep)
    rw [if_neg h, judge, hheld]
    exact ⟨rfl, ht⟩

/-- A message that is due and comes too early for the limiter is lost. -/
theorem Tracks.lost {m : ℕ} (hm : m ≤ 2 ^ 31) {r : RateLimiter} {last : Option ℕ} {now : ℕ}
    (ht : Tracks m r last) (hord : ∀ d ∈ last, d ≤ now) (hon : ¬ OnTime m last now) :
    (r.invoke now).1 ≠ separated m last now := by
  unfold OnTime at hon
  rw [Classical.not_imp] at hon
  rw [ht.invoke hm hord, if_neg hon.2, hon.1]
  exact Bool.false_ne_true

/-! ## Streams -/

/-- The limiter keeps the law exactly on the streams where every message that is due
comes late enough modulo `2 ^ 32` ms. -/
theorem invoke_eq_iff {m : ℕ} (hm : m ≤ 2 ^ 31) {nows : List ℕ} (hord : nows.Pairwise (· ≤ ·)) :
    verdicts invoke (ofMinSeparation m) nows = verdicts (judge (separated m)) none nows ↔
      Along (separated m) (OnTime m) none nows := by
  apply verdicts_eq_iff _ _ (Tracks.start m) (Along.of_pairwise (by simp) hord)
  · intro r last now ht hle hon
    exact ht.step hm hle hon
  · intro r last now ht hle hon
    exact ht.lost hm hle hon

/-- Across the wrap of the clock, and with a silence of more than its range. -/
theorem invoke_eq_iff_run :
    verdicts invoke (ofMinSeparation 100)
        [2 ^ 32 - 50, 2 ^ 32 + 10, 2 ^ 32 + 60, 2 ^ 33 + 200] =
      [true, false, true, true] :=
  ((invoke_eq_iff (by decide) (by decide)).mpr (by decide)).trans (by decide)

/-- The first message after the clock has started, or after it has wrapped, is held back,
and so is one after a silence of just over `2 ^ 32` ms. -/
theorem invoke_holds_back :
    verdicts invoke (ofMinSeparation 100) [7] ≠ verdicts (judge (separated 100)) none [7] ∧
    verdicts invoke (ofMinSeparation 100) [2 ^ 32 + 7] ≠
      verdicts (judge (separated 100)) none [2 ^ 32 + 7] ∧
    verdicts invoke (ofMinSeparation 100) [500, 2 ^ 32 + 507] ≠
      verdicts (judge (separated 100)) none [500, 2 ^ 32 + 507] := by
  decide

end RateLimiter

end AsyncSqlite
