import Mathlib.Data.List.Perm.Basic
import Mathlib.Data.List.Range
import Mathlib.Logic.Function.Basic
import Mathlib.Tactic.Common

/-!
# AsyncSqlite.Heap.Bytes — memory with values that span bytes

A byte of memory is a plain byte, or byte `i` of a stored value: a value that
takes `k` bytes is read back only where all of its `k` bytes are in place and in
order. So what a program does to the bytes of others shows (`load_congr`), and
stores to ranges that are apart do not disturb each other (`load_store_apart`).

`Extent` is a range of addresses. Extents that follow each other at one distance
are apart (`pairwise_apart_stride`).
-/

namespace AsyncSqlite

universe u

/-! ## Extents -/

/-- The addresses from `start` on. -/
structure Extent where
  start : ℕ
  len : ℕ
deriving DecidableEq, Repr

namespace Extent

def stop (e : Extent) : ℕ := e.start + e.len

/-- No address is in both. -/
def Apart (e e' : Extent) : Prop := e.stop ≤ e'.start ∨ e'.stop ≤ e.start

/-- All of `e` lies in `e'`. -/
def Within (e e' : Extent) : Prop := e'.start ≤ e.start ∧ e.stop ≤ e'.stop

instance (e e' : Extent) : Decidable (e.Apart e') := inferInstanceAs (Decidable (_ ∨ _))

instance (e e' : Extent) : Decidable (e.Within e') := inferInstanceAs (Decidable (_ ∧ _))

variable {e e' d d' : Extent}

theorem Apart.symm (h : e.Apart e') : e'.Apart e := Or.symm h

theorem Apart.mono (h : e.Apart e') (hd : d.Within e) (hd' : d'.Within e') : d.Apart d' := by
  unfold Apart Within at *
  omega

/-- Extents of one length, each a stride behind the one before. -/
theorem pairwise_apart_stride (p n k : ℕ) :
    ((List.range k).map fun i => p + i * n).Pairwise
      fun a b => Apart ⟨a, n⟩ ⟨b, n⟩ := by
  rw [List.pairwise_map]
  refine List.pairwise_lt_range.imp fun {i j} hij => Or.inl ?_
  have hle : (i + 1) * n ≤ j * n := Nat.mul_le_mul_right n hij
  rw [Nat.succ_mul] at hle
  simp only [stop]
  omega

end Extent

/-! ## Memory -/

inductive Memval (V : Type u) where
  | byte (b : UInt8)
  /-- byte `i` of `v` -/
  | fragment (v : V) (i : ℕ)
deriving DecidableEq

abbrev Memory (V : Type u) := ℕ → Memval V

namespace Memory

variable {V : Type u}

/-- `v`, of `k` bytes, goes to `a`. -/
def store (m : Memory V) (k a : ℕ) (v : V) : Memory V :=
  fun x => if a ≤ x ∧ x < a + k then .fragment v (x - a) else m x

/-- The value of `k` bytes at `a`, if one is there. -/
def load [DecidableEq V] (m : Memory V) (k a : ℕ) : Option V :=
  match m a with
  | .byte _ => none
  | .fragment v _ => if ∀ i < k, m (a + i) = .fragment v i then some v else none

/-- `n` bytes from `src` go to `dst`; the two do not overlap. -/
def copy (m : Memory V) (n dst src : ℕ) : Memory V :=
  fun x => if dst ≤ x ∧ x < dst + n then m (src + (x - dst)) else m x

/-- A byte is overwritten. -/
def poke (m : Memory V) (x : ℕ) (c : Memval V) : Memory V := Function.update m x c

variable {m m' : Memory V} {k k' a b : ℕ} {v : V}

theorem store_of_outside {x : ℕ} (h : x < a ∨ a + k ≤ x) : m.store k a v x = m x := by
  have hout : ¬ (a ≤ x ∧ x < a + k) := by
    omega
  exact if_neg hout

theorem copy_of_outside {n dst src x : ℕ} (h : x < dst ∨ dst + n ≤ x) :
    m.copy n dst src x = m x := by
  have hout : ¬ (dst ≤ x ∧ x < dst + n) := by
    omega
  exact if_neg hout

theorem copy_of_lt {n dst src i : ℕ} (h : i < n) : m.copy n dst src (dst + i) = m (src + i) := by
  have hin : dst ≤ dst + i ∧ dst + i < dst + n := by
    omega
  unfold copy
  rw [if_pos hin, Nat.add_sub_cancel_left]

theorem poke_of_ne {x y : ℕ} {c : Memval V} (h : y ≠ x) : m.poke x c y = m y := by
  unfold poke
  rw [Function.update_of_ne h]

variable [DecidableEq V]

/-- Only the bytes at hand matter. -/
theorem load_congr (hk : 0 < k) (h : ∀ i < k, m' (a + i) = m (a + i)) :
    m'.load k a = m.load k a := by
  have hall (w : V) : (∀ i < k, m' (a + i) = .fragment w i) ↔
      ∀ i < k, m (a + i) = .fragment w i := by
    constructor
    · intro hw i hi
      rw [← h i hi]
      exact hw i hi
    · intro hw i hi
      rw [h i hi]
      exact hw i hi
  have hhead : m' a = m a := h 0 hk
  unfold load
  rw [hhead]
  simp only [hall]

theorem load_store_self (hk : 0 < k) : (m.store k a v).load k a = some v := by
  have hbyte : ∀ i < k, m.store k a v (a + i) = .fragment v i := by
    intro i hi
    have hin : a ≤ a + i ∧ a + i < a + k := by
      omega
    unfold store
    rw [if_pos hin, Nat.add_sub_cancel_left]
  have hhead : m.store k a v a = .fragment v 0 := hbyte 0 hk
  unfold load
  rw [hhead]
  exact if_pos hbyte

theorem load_store_apart (hk : 0 < k') (h : Extent.Apart ⟨a, k⟩ ⟨b, k'⟩) :
    (m.store k a v).load k' b = m.load k' b := by
  refine load_congr hk fun i hi => store_of_outside ?_
  simp only [Extent.Apart, Extent.stop] at h
  omega

/-! ### Frames -/

/-- `m'` differs from `m` in `e` alone. -/
def ChangesOnly (e : Extent) (m m' : Memory V) : Prop :=
  ∀ x, x < e.start ∨ e.stop ≤ x → m' x = m x

section Frames

variable {m'' : Memory V} {e : Extent}

omit [DecidableEq V]

theorem ChangesOnly.refl (e : Extent) (m : Memory V) : ChangesOnly e m m := fun _ _ => rfl

theorem ChangesOnly.trans (h : ChangesOnly e m m') (h' : ChangesOnly e m' m'') :
    ChangesOnly e m m'' :=
  fun x hx => (h' x hx).trans (h x hx)

theorem ChangesOnly.mono {e' : Extent} (h : ChangesOnly e m m') (he : e.Within e') :
    ChangesOnly e' m m' := by
  intro x hx
  refine h x ?_
  simp only [Extent.Within] at he
  omega

theorem changesOnly_store (h : Extent.Within ⟨a, k⟩ e) : ChangesOnly e m (m.store k a v) := by
  intro x hx
  refine store_of_outside ?_
  simp only [Extent.Within, Extent.stop] at h hx
  omega

theorem changesOnly_copy {n dst src : ℕ} (h : Extent.Within ⟨dst, n⟩ e) :
    ChangesOnly e m (m.copy n dst src) := by
  intro x hx
  refine copy_of_outside ?_
  simp only [Extent.Within, Extent.stop] at h hx
  omega

/-- A byte outside. -/
theorem ChangesOnly.apply {d : Extent} (h : ChangesOnly e m m') (hd : d.Apart e) {x : ℕ}
    (hx : d.start ≤ x ∧ x < d.stop) : m' x = m x := by
  refine h x ?_
  simp only [Extent.Apart, Extent.stop] at hd hx ⊢
  omega

end Frames

theorem ChangesOnly.load {e : Extent} (h : ChangesOnly e m m') (hk : 0 < k)
    (ha : Extent.Apart ⟨a, k⟩ e) : m'.load k a = m.load k a := by
  refine load_congr hk fun i hi => h.apply ha ?_
  simp only [Extent.stop]
  omega

end Memory

end AsyncSqlite
