import Mathlib.Data.List.ReduceOption
import Mathlib.Data.List.TakeWhile
import Mathlib.Order.Lattice
import Mathlib.Tactic.Common

/-!
# AsyncSqlite.Data.ByteFeed — reading a stream that arrives in pieces

A `Feed` is what the reader of a stream will meet, read by read: pieces of data
of any length, and reads that time out. Behind the last event nothing arrives
any more, so every read fails there.

* `readExact n` is the loop that reads until it has `n` elements. It gives up at
  the first read that fails and loses what it has collected.
* `symbols` forgets how the data was cut into pieces and keeps where the
  timeouts are. `readExact_symbols` says that the pieces do not matter: the loop
  is `takeExact` on the symbols, and `readExact_cases` lists what it can do.
* `arriving` is all the data ahead, `unbroken` the part before the first
  timeout and `interrupted` what is from there on.
-/

namespace AsyncSqlite

universe u

/-- What one read finds. -/
inductive FeedEvent (α : Type u)
  | data (xs : List α)
  | timeout
  deriving DecidableEq

abbrev Feed (α : Type u) := List (FeedEvent α)

namespace Feed

variable {α : Type u}

/-- The data and the timeouts, without the borders of the pieces. -/
def symbols : Feed α → List (Option α)
  | [] => []
  | .data xs :: fd => xs.map some ++ symbols fd
  | .timeout :: fd => none :: symbols fd

/-- Read until there are `n` elements; a read that fails ends it. -/
def readExact : ℕ → Feed α → Option (List α) × Feed α
  | 0, fd => (some [], fd)
  | _ + 1, [] => (none, [])
  | _ + 1, .timeout :: fd => (none, fd)
  | n + 1, .data xs :: fd =>
    if n + 1 < xs.length then (some (xs.take (n + 1)), .data (xs.drop (n + 1)) :: fd)
    else
      match readExact (n + 1 - xs.length) fd with
      | (ys, fd') => (ys.map (xs ++ ·), fd')

/-- Everything that still arrives. -/
def arriving (fd : Feed α) : List α := fd.symbols.reduceOption

/-- What arrives before a read times out. -/
def unbroken (fd : Feed α) : List α := (fd.symbols.takeWhile Option.isSome).reduceOption

/-- From the first timeout on. -/
def interrupted (fd : Feed α) : List (Option α) := fd.symbols.dropWhile Option.isSome

/-! ## The data ahead -/

@[simp] theorem reduceOption_map_some (xs : List α) : (xs.map some).reduceOption = xs := by
  induction xs with
  | nil => rfl
  | cons x xs ih => rw [List.map_cons, List.reduceOption_cons_of_some, ih]

@[simp] theorem symbols_data (xs : List α) (fd : Feed α) :
    symbols (.data xs :: fd) = xs.map some ++ symbols fd := rfl

theorem symbols_eq (fd : Feed α) : fd.symbols = fd.unbroken.map some ++ fd.interrupted := by
  unfold unbroken interrupted
  induction fd.symbols with
  | nil => rfl
  | cons x l ih =>
    cases x with
    | none => rfl
    | some x =>
      rw [List.takeWhile_cons_of_pos rfl, List.dropWhile_cons_of_pos rfl,
        List.reduceOption_cons_of_some, List.map_cons, List.cons_append, ← ih]

theorem head?_interrupted (fd : Feed α) (x : α) : fd.interrupted.head? ≠ some (some x) := by
  unfold interrupted
  induction fd.symbols with
  | nil => simp
  | cons y l ih =>
    cases y with
    | none => simp
    | some y =>
      rw [List.dropWhile_cons_of_pos rfl]
      exact ih

theorem arriving_of_symbols {fd : Feed α} {xs : List α} {rest : List (Option α)}
    (h : fd.symbols = xs.map some ++ rest) : fd.arriving = xs ++ rest.reduceOption := by
  rw [arriving, h, List.reduceOption_append, reduceOption_map_some]

theorem arriving_eq (fd : Feed α) :
    fd.arriving = fd.unbroken ++ fd.interrupted.reduceOption :=
  arriving_of_symbols fd.symbols_eq

theorem reduceOption_tail {rest : List (Option α)} (h : ∀ x, rest.head? ≠ some (some x)) :
    rest.tail.reduceOption = rest.reduceOption := by
  cases rest with
  | nil => rfl
  | cons x rest =>
    cases x with
    | none => rw [List.tail_cons, List.reduceOption_cons_of_none]
    | some x => exact absurd rfl (h x)

theorem unbroken_of_symbols {fd : Feed α} {xs : List α} (h : fd.symbols = xs.map some) :
    fd.unbroken = xs ∧ fd.interrupted = [] := by
  have hsome : ∀ x ∈ xs.map some, Option.isSome x = true := by simp
  constructor
  · rw [unbroken, h, List.takeWhile_eq_self_iff.mpr hsome, reduceOption_map_some]
  · rw [interrupted, h, List.dropWhile_eq_nil_iff.mpr hsome]

/-- A feed without timeouts. -/
theorem symbols_of_data {fd : Feed α} (h : .timeout ∉ fd) :
    fd.symbols = fd.arriving.map some := by
  have hsym : ∃ xs : List α, fd.symbols = xs.map some := by
    induction fd with
    | nil => exact ⟨[], rfl⟩
    | cons e fd ih =>
      cases e with
      | timeout => exact absurd (List.mem_cons_self ..) h
      | data xs =>
        obtain ⟨ys, hys⟩ := ih fun hmem => h (List.mem_cons_of_mem _ hmem)
        exact ⟨xs ++ ys, by rw [symbols_data, hys, List.map_append]⟩
  obtain ⟨xs, hxs⟩ := hsym
  rw [arriving, hxs, reduceOption_map_some]

/-! ## Reading symbol by symbol -/

/-- The loop without the pieces: one symbol at a time. -/
def takeExact : ℕ → List (Option α) → Option (List α) × List (Option α)
  | 0, l => (some [], l)
  | _ + 1, [] => (none, [])
  | _ + 1, none :: l => (none, l)
  | n + 1, some x :: l =>
    match takeExact n l with
    | (xs, l') => (xs.map (x :: ·), l')

@[simp] theorem takeExact_zero (l : List (Option α)) : takeExact 0 l = (some [], l) := by
  cases l <;> rfl

theorem takeExact_of_le {n : ℕ} {xs : List α} {l : List (Option α)} (h : n ≤ xs.length) :
    takeExact n (xs.map some ++ l) = (some (xs.take n), (xs.drop n).map some ++ l) := by
  induction xs generalizing n with
  | nil =>
    rw [List.length_nil, Nat.le_zero] at h
    rw [h, takeExact_zero]
    rfl
  | cons x xs ih =>
    cases n with
    | zero => rfl
    | succ n =>
      rw [List.map_cons, List.cons_append, takeExact, ih (Nat.le_of_succ_le_succ h)]
      rfl

theorem takeExact_append {n : ℕ} {xs ys : List α} {l : List (Option α)} (h : xs.length = n) :
    takeExact n ((xs ++ ys).map some ++ l) = (some xs, ys.map some ++ l) := by
  rw [takeExact_of_le (by rw [List.length_append]; omega), List.take_left' h, List.drop_left' h]

theorem takeExact_of_lt {n : ℕ} {xs : List α} {l : List (Option α)} (h : xs.length < n) :
    takeExact n (xs.map some ++ l) =
      ((takeExact (n - xs.length) l).1.map (xs ++ ·), (takeExact (n - xs.length) l).2) := by
  induction xs generalizing n with
  | nil => simp
  | cons x xs ih =>
    cases n with
    | zero => omega
    | succ n =>
      rw [List.map_cons, List.cons_append, takeExact, ih (Nat.lt_of_succ_lt_succ h),
        List.length_cons, Nat.succ_sub_succ]
      dsimp only
      rw [Option.map_map]
      rfl

theorem takeExact_short {n : ℕ} {xs : List α} {l : List (Option α)}
    (hl : ∀ x, l.head? ≠ some (some x)) (h : xs.length < n) :
    takeExact n (xs.map some ++ l) = (none, l.tail) := by
  have hfirst : takeExact (n - xs.length) l = (none, l.tail) := by
    obtain ⟨m, hm⟩ := Nat.exists_eq_add_of_lt h
    have hpos : n - xs.length = m + 1 := by omega
    rw [hpos]
    cases l with
    | nil => rfl
    | cons x l =>
      cases x with
      | none => rfl
      | some x => exact absurd rfl (hl x)
  rw [takeExact_of_lt h, hfirst]
  rfl

/-- As much data is gone as has been read, or more where the read failed. -/
theorem takeExact_count (n : ℕ) (l : List (Option α)) :
    (takeExact n l).2.reduceOption.length ≤ l.reduceOption.length ∧
      ∀ xs ∈ (takeExact n l).1, xs.length = n ∧
        (takeExact n l).2.reduceOption.length + n = l.reduceOption.length := by
  induction l generalizing n with
  | nil => cases n <;> simp [takeExact]
  | cons x l ih =>
    cases n with
    | zero => simp
    | succ n =>
      cases x with
      | none => simp [takeExact, List.reduceOption_cons_of_none]
      | some x =>
        obtain ⟨hle, hread⟩ := ih n
        rw [takeExact, List.reduceOption_cons_of_some, List.length_cons]
        refine ⟨hle.trans (Nat.le_succ _), fun xs hxs => ?_⟩
        obtain ⟨ys, hys, rfl⟩ := Option.map_eq_some_iff.mp hxs
        obtain ⟨hlen, hcount⟩ := hread ys hys
        exact ⟨congrArg Nat.succ hlen, congrArg Nat.succ hcount⟩

/-! ## What the loop does -/

@[simp] theorem readExact_zero (fd : Feed α) : readExact 0 fd = (some [], fd) := by
  cases fd <;> rfl

/-- How the data is cut into pieces makes no difference. -/
theorem readExact_symbols (n : ℕ) (fd : Feed α) :
    (readExact n fd).1 = (takeExact n fd.symbols).1 ∧
      symbols (readExact n fd).2 = (takeExact n fd.symbols).2 := by
  induction fd generalizing n with
  | nil => cases n <;> exact ⟨rfl, rfl⟩
  | cons e fd ih =>
    cases n with
    | zero => simp
    | succ n =>
      cases e with
      | timeout => exact ⟨rfl, rfl⟩
      | data ys =>
        rw [readExact, symbols_data]
        by_cases hlt : n + 1 < ys.length
        · rw [if_pos hlt, takeExact_of_le hlt.le]
          exact ⟨rfl, rfl⟩
        · rw [if_neg hlt]
          obtain ⟨hread, hrest⟩ := ih (n + 1 - ys.length)
          rcases Nat.lt_or_ge ys.length (n + 1) with hgt | hle
          · rw [takeExact_of_lt hgt]
            exact ⟨congrArg (Option.map (ys ++ ·)) hread, hrest⟩
          · -- the piece is just what was asked for
            have heq : n + 1 = ys.length := by omega
            rw [takeExact_of_le hle, heq, Nat.sub_self, readExact_zero]
            simp

/-- Everything the loop can do, by what arrives before a timeout. -/
theorem readExact_cases {fd : Feed α} {xs : List α} {rest : List (Option α)}
    (h : fd.symbols = xs.map some ++ rest) (hrest : ∀ x, rest.head? ≠ some (some x)) (n : ℕ) :
    (n ≤ xs.length ∧ ∃ fd', readExact n fd = (some (xs.take n), fd') ∧
      symbols fd' = (xs.drop n).map some ++ rest) ∨
    (xs.length < n ∧ ∃ fd', readExact n fd = (none, fd') ∧ symbols fd' = rest.tail) := by
  obtain ⟨hread, hsym⟩ := readExact_symbols n fd
  rw [h] at hread hsym
  rcases Nat.lt_or_ge xs.length n with hlt | hge
  · right
    rw [takeExact_short hrest hlt] at hread hsym
    exact ⟨hlt, _, Prod.ext hread rfl, hsym⟩
  · left
    rw [takeExact_of_le hge] at hread hsym
    exact ⟨hge, _, Prod.ext hread rfl, hsym⟩

end Feed

end AsyncSqlite
