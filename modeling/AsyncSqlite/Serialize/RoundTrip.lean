import AsyncSqlite.Serialize.Received
import AsyncSqlite.Serialize.Write

/-!
# AsyncSqlite.Serialize.RoundTrip — what was written is read back

`write` and `read` meet in the wire format: a `write` that leaves the stream
good has put an encoding of the value (`writes_write`), and any encoding of a
value is read as that value (`reads_read`).
-/

namespace AsyncSqlite

universe u

namespace Serialize

/-- The bytes that `write` put, followed by any others, are read as the value
that was written, up to their end. -/
theorem read_write {C : Type u} (cls : Classes C) {f : Field C} {v : Val}
    (hv : Field.Typed (cls.Typed maxParseStackDepth) f v) (os : OStream) (e : ParsingError) :
    ∃ w, (write cls maxParseStackDepth f v).run ⟨os, e⟩ = some ((), w) ∧
      (w.os.good = true → ∃ bs, w.os = os.put bs ∧
        ∀ (is : IStream) (tail : List UInt8) (old : Val) (e' : ParsingError),
          is.good = true → is.rest = bs ++ tail →
          ∃ r, (read cls f old).run ⟨is, [], e'⟩ = some (v, r) ∧ r.is.good = true ∧
            r.is.buf = is.buf ∧ r.is.pos = is.pos + bs.length ∧ r.is.rest = tail ∧
            r.stopParsePos = [] ∧ r.lastError = e') := by
  have hvalid : Field.Valid (cls.Valid maxParseStackDepth) f v :=
    .typed (hv.mono fun _ _ => Classes.Typed.valid)
  obtain ⟨w, hrun, hw⟩ := writes_write cls hvalid ⟨os, e⟩
  refine ⟨w, hrun, fun hgood => ?_⟩
  obtain ⟨-, bs, henc, rfl⟩ := hw (OStream.good_eq_true.mp hgood)
  refine ⟨bs, rfl, fun is tail old e' hg hrest => ?_⟩
  have hread := reads_read cls.versions_self henc old ⟨is, [], e'⟩ tail hg hrest
    (by simp [ReadState.Room]) (Nat.le_refl _)
  rw [receivedField_self (fun _ old _ h => received_self h old) hv] at hread
  have hle : bs.length ≤ is.rest.length := by
    rw [hrest, List.length_append]
    omega
  exact ⟨_, hread, hg, rfl, IStream.pos_advance hle, IStream.rest_advance_of_prefix hrest, rfl, rfl⟩

/-! ## A value with everything in it -/

/-- A point and a shape that holds points in every way. -/
inductive Demo where
  | point | shape
deriving DecidableEq

/-- `std::less<uint8_t>` -/
def lessByte : Less := fun a b => decide (a.bytes < b.bytes)

def demo : Classes Demo where
  fields
    | .point => [.literal 2, .string]
    | .shape => [.object .point, .vectorBool, .vector (.literal 4), .vectorPtr .point,
        .list (.object .point), .set (.literal 1) lessByte,
        .map (.literal 1) (.object .point) lessByte, .mapPtr (.literal 1) .shape lessByte]
  fresh _ := .object []
  indeterminate size := List.replicate size 0xCC

/-- A point with a name, which may be empty. -/
def point (name : List UInt8) : Val := .object [.literal [1, 2], .string name]

/-- A shape inside a shape. -/
def shape : ℕ → Val
  | 0 => .object [point [], .bools [], .items [], .pointers [], .items [], .items [], .entries [],
      .pointerEntries []]
  | n + 1 => .object [point [65], .bools [true, false], .items [.literal [1, 2, 3, 4]],
      .pointers [none, some (point [66])], .items [point []], .items [.literal [3], .literal [7]],
      .entries [(.literal [5], point [67])],
      .pointerEntries [(.literal [0], none), (.literal [9], some (shape n))]]

theorem point_typed (n : ℕ) (name : List UInt8) : demo.Typed (n + 1) .point (point name) :=
  ⟨_, rfl, .cons (.literal (by decide) rfl) (.cons .string .nil)⟩

theorem shape_typed (n : ℕ) : demo.Typed (n + 2) .shape (shape n) := by
  induction n with
  | zero =>
    refine ⟨_, rfl, .cons (.object (point_typed 0 [])) ?_⟩
    refine .cons .vectorBool (.cons (.vector ?_) (.cons (.vectorPtr ?_) (.cons (.list ?_)
      (.cons (.set ?_ .nil) (.cons (.map ?_ .nil) (.cons (.mapPtr ?_ .nil) .nil)))))) <;> simp
  | succ n ih =>
    have hname (name : List UInt8) : demo.Typed (n + 2) .point (point name) :=
      point_typed (n + 1) name
    refine ⟨_, rfl, .cons (.object (hname [65])) ?_⟩
    refine .cons .vectorBool (.cons (.vector ?_) (.cons (.vectorPtr ?_) (.cons (.list ?_)
      (.cons (.set ?_ ?_) (.cons (.map ?_ (List.pairwise_singleton _ _)) (.cons (.mapPtr ?_ ?_)
        .nil))))))
    · simp only [List.mem_singleton, forall_eq]
      exact .literal (by decide) rfl
    · simp only [List.mem_cons, List.not_mem_nil, or_false, reduceCtorEq, false_or,
        Option.some.injEq, forall_eq]
      exact hname [66]
    · simp only [List.mem_singleton, forall_eq]
      exact .object (hname [])
    · simp only [List.mem_cons, List.not_mem_nil, or_false, forall_eq_or_imp, forall_eq]
      exact ⟨.literal (by decide) rfl, .literal (by decide) rfl⟩
    · exact List.pairwise_pair.mpr (by decide)
    · simp only [List.mem_singleton, forall_eq]
      exact ⟨.literal (by decide) rfl, .object (hname [67])⟩
    · simp only [List.mem_cons, List.not_mem_nil, or_false, forall_eq_or_imp, forall_eq,
        reduceCtorEq, false_implies, implies_true, and_true, Option.some.injEq, forall_eq']
      exact ⟨.literal (by decide) rfl, .literal (by decide) rfl, ih⟩
    · exact List.pairwise_pair.mpr rfl

theorem good_write_shape : ((write demo maxParseStackDepth (.object .shape) (shape 3)).run
    ⟨OStream.fresh, .none⟩).any (fun r => r.2.os.good) = true := by
  decide +kernel

/-- A shape that nests five deep. -/
theorem read_write_shape : ∃ w bs,
    (write demo maxParseStackDepth (.object .shape) (shape 3)).run ⟨OStream.fresh, .none⟩ =
        some ((), w) ∧
      w.os.good = true ∧ w.os = OStream.fresh.put bs ∧
      ∃ r, (read demo (.object .shape) (.object [])).run ⟨IStream.open_ (bs ++ [0xAA]), [], .none⟩ =
        some (shape 3, r) ∧ r.is.good = true ∧ r.is.rest = [0xAA] := by
  obtain ⟨w, hrun, hw⟩ := read_write demo (f := .object .shape) (.object (shape_typed 3))
    OStream.fresh .none
  have hgood : w.os.good = true := by
    have hany := good_write_shape
    rw [hrun] at hany
    exact hany
  obtain ⟨bs, hbs, hread⟩ := hw hgood
  obtain ⟨r, hr, hrg, -, -, hrest, -, -⟩ :=
    hread (IStream.open_ (bs ++ [0xAA])) [0xAA] (.object []) .none rfl rfl
  exact ⟨w, bs, hrun, hgood, hbs, r, hr, hrg, hrest⟩

end Serialize

end AsyncSqlite
