import Mathlib.Algebra.Order.Ring.Int
import Mathlib.Data.List.Basic
import Mathlib.Tactic.Common

/-!
# AsyncSqlite.Data.Stream — string streams with positions and error bits

`OStream` is an output string stream and `IStream` an input one, each with its
contents, its position and the error bits that an operation on a stream in
memory can set. A position never passes the end of the contents.

* Output: on a good stream every `write` is a `put`. `put_put` joins writes,
  `put_patch` is the pattern "leave room, write on, come back and fill it in".
* Input: on a good stream reading `n` bytes that are there is `advance n`
  (`read_of_rest`), and the bytes ahead of the get position are `rest`.
-/

namespace AsyncSqlite

/-! ## Overwriting -/

/-- `bs` over the contents from position `p` on. -/
def overwrite (p : ℕ) (bs buf : List UInt8) : List UInt8 :=
  buf.take p ++ bs ++ buf.drop (p + bs.length)

section Overwrite

variable {p : ℕ} {a b h h' x buf : List UInt8}

theorem length_overwrite (hp : p ≤ buf.length) :
    (overwrite p a buf).length = max buf.length (p + a.length) := by
  simp only [overwrite, List.length_append, List.length_take, List.length_drop]
  omega

theorem overwrite_append (hp : p ≤ buf.length) :
    overwrite (p + a.length) b (overwrite p a buf) = overwrite p (a ++ b) buf := by
  have hpre : (buf.take p ++ a).length = p + a.length := by
    rw [List.length_append, List.length_take]
    omega
  have htake : (overwrite p a buf).take (p + a.length) = buf.take p ++ a := by
    rw [overwrite, List.take_append_of_le_length hpre.ge, ← hpre, List.take_length]
  have hdrop : (overwrite p a buf).drop (p + a.length + b.length) =
      buf.drop (p + (a ++ b).length) := by
    rw [overwrite, ← List.drop_drop, ← hpre, List.drop_left, List.drop_drop, hpre,
      List.length_append, Nat.add_assoc]
  rw [overwrite, htake, hdrop, overwrite, List.append_assoc (buf.take p)]

/-- Only the first bytes of what was written are replaced. -/
theorem overwrite_head (hp : p ≤ buf.length) (hlen : h'.length = h.length) :
    overwrite p h' (overwrite p (h ++ x) buf) = overwrite p (h' ++ x) buf := by
  have hpre : (buf.take p).length = p := List.length_take_of_le hp
  have hbuf : overwrite p (h ++ x) buf =
      buf.take p ++ (h ++ (x ++ buf.drop (p + (h ++ x).length))) := by
    simp only [overwrite, List.append_assoc]
  have htake : (overwrite p (h ++ x) buf).take p = buf.take p := by
    rw [hbuf, List.take_append_of_le_length hpre.ge, List.take_of_length_le hpre.le]
  have hdrop : (overwrite p (h ++ x) buf).drop (p + h'.length) =
      x ++ buf.drop (p + (h' ++ x).length) := by
    rw [hbuf, ← List.drop_drop, List.drop_left' hpre, List.drop_left' hlen.symm]
    simp only [List.length_append, hlen]
  rw [overwrite, htake, hdrop, overwrite]
  simp only [List.append_assoc]

end Overwrite

/-! ## Output -/

/-- An output string stream; nothing sets its badbit or eofbit. -/
structure OStream where
  buf : List UInt8
  /-- the put position -/
  pos : ℕ
  failbit : Bool
  pos_le : pos ≤ buf.length
  deriving DecidableEq

namespace OStream

variable {os : OStream} {a b h h' x : List UInt8}

def fresh : OStream := ⟨[], 0, false, Nat.le_refl 0⟩

def good (os : OStream) : Bool := !os.failbit

/-- `setstate(failbit)` -/
def setFail (os : OStream) : OStream := { os with failbit := true }

def clear (os : OStream) : OStream := { os with failbit := false }

/-- `str(bs)`: new contents, position 0, the error bits stay. -/
def str (os : OStream) (bs : List UInt8) : OStream := ⟨bs, 0, os.failbit, Nat.zero_le _⟩

/-- The bytes at the put position, over what is there. -/
def put (os : OStream) (bs : List UInt8) : OStream :=
  ⟨overwrite os.pos bs os.buf, os.pos + bs.length, os.failbit, by
    rw [length_overwrite os.pos_le]
    omega⟩

def write (os : OStream) (bs : List UInt8) : OStream := if os.failbit then os else os.put bs

def tellp (os : OStream) : ℤ := if os.failbit then -1 else os.pos

/-- `seekp(p)`; a position outside the contents sets failbit. -/
def seekp (os : OStream) (p : ℤ) : OStream :=
  if os.failbit then os
  else if h : 0 ≤ p ∧ p ≤ os.buf.length then ⟨os.buf, p.toNat, false, Int.toNat_le.mpr h.2⟩
  else os.setFail

@[simp] theorem good_eq_true : os.good = true ↔ os.failbit = false := by
  simp [good]

@[simp] theorem failbit_put : (os.put a).failbit = os.failbit := rfl

@[simp] theorem put_nil : os.put [] = os := by
  simp [put, overwrite]

theorem put_put : (os.put a).put b = os.put (a ++ b) := by
  simp only [put, overwrite_append os.pos_le, List.length_append, Nat.add_assoc]

theorem write_of_good (hg : os.failbit = false) : os.write a = os.put a := by
  simp [write, hg]

theorem write_of_fail (hf : os.failbit = true) : os.write a = os := by
  simp [write, hf]

@[simp] theorem failbit_write : (os.write a).failbit = os.failbit := by
  unfold write
  split <;> rfl

theorem tellp_of_good (hg : os.failbit = false) : os.tellp = os.pos := by
  simp [tellp, hg]

theorem tellp_of_fail (hf : os.failbit = true) : os.tellp = -1 := by
  simp [tellp, hf]

theorem seekp_of_fail (hf : os.failbit = true) {p : ℤ} : os.seekp p = os := by
  simp [seekp, hf]

theorem seekp_of_le (hg : os.failbit = false) {p : ℕ} (hp : p ≤ os.buf.length) :
    os.seekp p = ⟨os.buf, p, false, hp⟩ := by
  simp [seekp, hg, hp]

/-- Come back to where `a` was written. -/
theorem seekp_put_pos (hg : os.failbit = false) : (os.put a).seekp os.pos =
    ⟨(os.put a).buf, os.pos, false, (Nat.le_add_right _ _).trans (os.put a).pos_le⟩ :=
  seekp_of_le (failbit_put.trans hg) _

/-- Come back to where `h` was written, write as many bytes there and go on
from the end. -/
theorem put_patch (hg : os.failbit = false) (hlen : h'.length = h.length) :
    (((os.put (h ++ x)).seekp os.pos).put h').seekp (os.pos + (h ++ x).length : ℕ) =
      os.put (h' ++ x) := by
  have hbuf : overwrite os.pos h' (os.put (h ++ x)).buf = overwrite os.pos (h' ++ x) os.buf :=
    overwrite_head os.pos_le hlen
  have hlast : os.pos + (h ++ x).length ≤ (overwrite os.pos h' (os.put (h ++ x)).buf).length := by
    rw [hbuf, length_overwrite os.pos_le, List.length_append, List.length_append, hlen]
    omega
  rw [seekp_put_pos hg]
  refine (seekp_of_le rfl hlast).trans ?_
  simp only [put, hg] at hbuf ⊢
  simp only [hbuf, List.length_append, hlen]

end OStream

/-! ## Input -/

/-- An input string stream; nothing sets its badbit. -/
structure IStream where
  buf : List UInt8
  /-- the get position -/
  pos : ℕ
  eofbit : Bool
  failbit : Bool
  pos_le : pos ≤ buf.length
  deriving DecidableEq

namespace IStream

variable {is : IStream} {bs tail : List UInt8} {n m : ℕ}

def open_ (buf : List UInt8) : IStream := ⟨buf, 0, false, false, Nat.zero_le _⟩

def good (is : IStream) : Bool := !is.eofbit && !is.failbit

/-- `setstate(failbit)` -/
def setFail (is : IStream) : IStream := { is with failbit := true }

/-- The bytes ahead of the get position. -/
def rest (is : IStream) : List UInt8 := is.buf.drop is.pos

/-- The get position `n` bytes further, the end at most. -/
def advance (is : IStream) (n : ℕ) : IStream :=
  ⟨is.buf, min (is.pos + n) is.buf.length, is.eofbit, is.failbit, Nat.min_le_right _ _⟩

/-- `tellg()`; the sentry sets failbit on a stream that is not good. -/
def tellg (is : IStream) : ℤ × IStream :=
  if is.good then (is.pos, is) else (-1, is.setFail)

/-- `peek()`, `none` for `eof()`. -/
def peek (is : IStream) : Option UInt8 × IStream :=
  if is.good then
    match is.rest.head? with
    | some b => (some b, is)
    | none => (none, { is with eofbit := true })
  else (none, is.setFail)

/-- `read(p, n)`: the bytes that are there; eofbit and failbit if they are too
few. -/
def read (is : IStream) (n : ℕ) : List UInt8 × IStream :=
  if is.good then
    let got := is.rest.take n
    if got.length < n then (got, { is.advance n with eofbit := true, failbit := true })
    else (got, is.advance n)
  else ([], is.setFail)

/-- `seekg(p)`: clears eofbit first; a position outside the contents sets
failbit. -/
def seekg (is : IStream) (p : ℤ) : IStream :=
  if is.failbit then { is with eofbit := false }
  else if h : 0 ≤ p ∧ p ≤ is.buf.length then
    ⟨is.buf, p.toNat, false, false, Int.toNat_le.mpr h.2⟩
  else { is with eofbit := false, failbit := true }

/-- `seekg(0, end)` -/
def seekgEnd (is : IStream) : IStream := is.seekg is.buf.length

/-- `seekg(off, cur)` -/
def seekgCur (is : IStream) (off : ℤ) : IStream := is.seekg (is.pos + off)

theorem good_iff : is.good = true ↔ is.eofbit = false ∧ is.failbit = false := by
  simp [good]

theorem length_rest : is.rest.length = is.buf.length - is.pos := List.length_drop

theorem pos_advance (h : n ≤ is.rest.length) : (is.advance n).pos = is.pos + n := by
  have hle := is.pos_le
  rw [length_rest] at h
  show min (is.pos + n) is.buf.length = is.pos + n
  omega

@[simp] theorem advance_zero : is.advance 0 = is := by
  have hle := is.pos_le
  cases is
  simp only [advance, mk.injEq, and_true, true_and]
  omega

theorem advance_advance : (is.advance n).advance m = is.advance (n + m) := by
  simp only [advance, mk.injEq, and_true, true_and]
  omega

@[simp] theorem rest_advance : (is.advance n).rest = is.rest.drop n := by
  show is.buf.drop (min (is.pos + n) is.buf.length) = (is.buf.drop is.pos).drop n
  rw [List.drop_drop]
  rcases Nat.le_total (is.pos + n) is.buf.length with h | h
  · rw [Nat.min_eq_left h]
  · rw [Nat.min_eq_right h, List.drop_length, List.drop_eq_nil_of_le h]

theorem rest_advance_of_prefix (h : is.rest = bs ++ tail) : (is.advance bs.length).rest = tail := by
  rw [rest_advance, h, List.drop_left]

theorem tellg_of_good (hg : is.good = true) : is.tellg = (↑is.pos, is) := by
  simp [tellg, hg]

theorem peek_of_rest (hg : is.good = true) {b : UInt8} (h : is.rest = b :: tail) :
    is.peek = (some b, is) := by
  simp [peek, hg, h]

/-- Bytes that are there are read, and nothing behind them. -/
theorem read_of_rest (hg : is.good = true) (h : is.rest = bs ++ tail) :
    is.read bs.length = (bs, is.advance bs.length) := by
  have hgot : is.rest.take bs.length = bs := by
    rw [h, List.take_left]
  simp [read, hg, hgot]

theorem seekg_of_le (hg : is.good = true) {p : ℕ} (hp : p ≤ is.buf.length) :
    is.seekg p = ⟨is.buf, p, false, false, hp⟩ := by
  simp [seekg, (good_iff.mp hg).2, hp]

/-- Looking for the end of the contents and coming back. -/
theorem seekg_back (hg : is.good = true) : is.seekgEnd.seekg is.pos = is := by
  obtain ⟨heof, hfail⟩ := good_iff.mp hg
  have hend : is.seekgEnd = ⟨is.buf, is.buf.length, false, false, Nat.le_refl _⟩ :=
    seekg_of_le hg (Nat.le_refl _)
  rw [hend]
  refine (@seekg_of_le ⟨is.buf, is.buf.length, false, false, _⟩ rfl is.pos is.pos_le).trans ?_
  cases is
  simp only at heof hfail
  simp only [heof, hfail]

theorem seekgCur_of_le (hg : is.good = true) (h : n ≤ is.rest.length) :
    is.seekgCur n = is.advance n := by
  obtain ⟨heof, hfail⟩ := good_iff.mp hg
  have hpos := is.pos_le
  rw [length_rest] at h
  have hle : is.pos + n ≤ is.buf.length := by
    omega
  have hcast : (is.pos : ℤ) + n = (is.pos + n : ℕ) := by
    omega
  rw [seekgCur, hcast, seekg_of_le hg hle]
  simp only [advance, heof, hfail, Nat.min_eq_left hle]

theorem tellg_seekgEnd (hg : is.good = true) :
    is.seekgEnd.tellg = (↑is.buf.length, is.seekgEnd) := by
  have hend : is.seekgEnd = ⟨is.buf, is.buf.length, false, false, Nat.le_refl _⟩ :=
    seekg_of_le hg (Nat.le_refl _)
  rw [hend]
  rfl

end IStream

end AsyncSqlite
