import AsyncSqlite.Serialize.RoundTrip

/-!
# AsyncSqlite.Serialize.Versions — objects of another version are read

What one version of the classes writes, another version reads: the members that
both know arrive, those that only the reader knows stay as they are, those that
only the writer knows are skipped, and what follows the object is still there
(`read_write_versions`). This holds for every object in the value, since
`received` takes each of them that way.
-/

namespace AsyncSqlite

universe u

namespace Serialize

/-- A member that is not sent stays as it is. -/
def unchanged {C : Type u} (_ : Field C) (old : Val) : Val := old

section Shape

variable {C : Type u} (O : C → Val → Prop)

/-- What a variable of the type can hold; of an object, all of its members. -/
inductive Field.Shaped : Field C → Val → Prop where
  | literal {n bytes} : Shaped (.literal n) (.literal bytes)
  | string {s} : Shaped .string (.string s)
  | wstring {s} : Shaped .wstring (.wstring s)
  | chars {n array} : Shaped (.chars n) (.chars array)
  | object {c v} : O c v → Shaped (.object c) v
  | vectorBool {l} : Shaped .vectorBool (.bools l)
  | vector {e l} : Shaped (.vector e) (.items l)
  | vectorPtr {c l} : Shaped (.vectorPtr c) (.pointers l)
  | list {e l} : Shaped (.list e) (.items l)
  | listPtr {c l} : Shaped (.listPtr c) (.pointers l)
  | set {e less l} : Shaped (.set e less) (.items l)
  | setPtr {c same l} : Shaped (.setPtr c same) (.pointers l)
  | map {k e less l} : Shaped (.map k e less) (.entries l)
  | mapPtr {k c less l} : Shaped (.mapPtr k c less) (.pointerEntries l)

end Shape

/-- An object of the class, down to `n` levels. -/
def Classes.Shaped {C : Type u} (cls : Classes C) : ℕ → C → Val → Prop
  | 0, _, _ => True
  | n + 1, c, v => ∃ members, v = .object members ∧
      List.Forall₂ (Field.Shaped (cls.Shaped n)) (cls.fields c) members

section Shape

variable {C : Type u} {cls : Classes C} {O : C → Val → Prop} {f : Field C} {old v : Val}

theorem Field.Shaped.mono {O' : C → Val → Prop} (hO : ∀ c v, O c v → O' c v)
    (h : Field.Shaped O f v) : Field.Shaped O' f v := by
  cases h with
  | object h => exact .object (hO _ _ h)
  | _ => constructor

theorem Field.Shaped.keep_eq (h : Field.Shaped O f old) : f.keep old = old := by
  cases h <;> rfl

theorem Classes.Shaped.pred {n : ℕ} {c : C} (h : cls.Shaped (n + 1) c v) : cls.Shaped n c v := by
  induction n generalizing c v with
  | zero => trivial
  | succ n ih =>
    obtain ⟨members, rfl, hm⟩ := h
    exact ⟨members, rfl, hm.imp fun _ _ h => h.mono fun _ _ => ih⟩

/-! ## A shaped target is what is read into -/

variable {rcv rcv' : C → Val → Val → Val}

theorem receivedField_congr (hfresh : ∀ c, O c (cls.fresh c))
    (hO : ∀ c old v, O c old → rcv c old v = rcv' c old v) (h : Field.Shaped O f old) :
    receivedField cls rcv f old v = receivedField cls rcv' f old v := by
  have helem : receivedElem cls rcv = receivedElem cls rcv' := by
    funext e v
    cases e with
    | literal n => rfl
    | object c => exact hO c _ v (hfresh c)
  have hpointer : receivedPointer cls rcv = receivedPointer cls rcv' := by
    funext c p
    cases p with
    | none => rfl
    | some v => exact congrArg some (hO c _ v (hfresh c))
  cases h with
  | object h => exact hO _ _ _ h
  | _ => simp only [receivedField, helem, hpointer]

theorem receivedMembers_congr (hfresh : ∀ c, O c (cls.fresh c))
    (hO : ∀ c old v, O c old → rcv c old v = rcv' c old v) {fs : List (Field C)}
    {olds : List Val} (h : List.Forall₂ (Field.Shaped O) fs olds) (vs : List Val) :
    receivedMembers cls Field.keep rcv fs olds vs =
      receivedMembers cls unchanged rcv' fs olds vs := by
  induction h generalizing vs with
  | nil => rfl
  | cons hf _ ih =>
    cases vs with
    | nil => exact congrArg₂ List.cons hf.keep_eq (ih [])
    | cons v vs => exact congrArg₂ List.cons (receivedField_congr hfresh hO hf) (ih vs)

theorem received_keep {n : ℕ} (hfresh : ∀ c, cls.Shaped n c (cls.fresh c)) {c : C}
    (h : cls.Shaped n c old) (v : Val) :
    received cls Field.keep n c old v = received cls unchanged n c old v := by
  induction n generalizing c old v with
  | zero => rfl
  | succ n ih =>
    obtain ⟨olds, rfl, hm⟩ := h
    have hfresh' : ∀ c, cls.Shaped n c (cls.fresh c) := fun c => (hfresh c).pred
    exact congrArg Val.object
      (receivedMembers_congr hfresh' (fun _ _ v h => ih hfresh' h v) hm v.members)

end Shape

/-! ## The two directions -/

section Directions

variable {C : Type u} {cls : Classes C} {rcv : C → Val → Val → Val} {fs gs : List (Field C)}

/-- Members that the reader does not know make no difference. -/
theorem receivedMembers_of_newer {vs : List Val} (hvs : vs.length = fs.length)
    (olds ws : List Val) :
    receivedMembers cls unchanged rcv fs olds (vs ++ ws) =
      receivedMembers cls unchanged rcv fs olds vs := by
  induction fs generalizing olds vs with
  | nil => rfl
  | cons f fs ih =>
    obtain ⟨v, vs, rfl⟩ := List.exists_cons_of_length_eq_add_one hvs
    exact congrArg (List.cons _) (ih (Nat.succ.inj hvs) olds.tail)

/-- Members that the writer did not know are those of the target. -/
theorem receivedMembers_of_older {olds kept vs : List Val} (holds : olds.length = fs.length)
    (hkept : kept.length = gs.length) (hvs : vs.length = fs.length) :
    receivedMembers cls unchanged rcv (fs ++ gs) (olds ++ kept) vs =
      receivedMembers cls unchanged rcv fs olds vs ++ kept := by
  induction fs generalizing olds vs with
  | nil =>
    obtain rfl := List.eq_nil_of_length_eq_zero holds
    obtain rfl := List.eq_nil_of_length_eq_zero hvs
    induction gs generalizing kept with
    | nil => exact (List.eq_nil_of_length_eq_zero hkept).symm
    | cons g gs ih =>
      obtain ⟨k, kept, rfl⟩ := List.exists_cons_of_length_eq_add_one hkept
      exact congrArg (List.cons k) (ih (Nat.succ.inj hkept))
  | cons f fs ih =>
    obtain ⟨old, olds, rfl⟩ := List.exists_cons_of_length_eq_add_one holds
    obtain ⟨v, vs, rfl⟩ := List.exists_cons_of_length_eq_add_one hvs
    exact congrArg (List.cons _) (ih (Nat.succ.inj holds) (Nat.succ.inj hvs))

end Directions

/-- The bytes that one version wrote, followed by any others, are read by the
other version up to their end. -/
theorem read_write_versions {C : Type u} {cls cls' : Classes C} (hver : cls.Versions cls')
    (hfresh : ∀ c, cls'.Shaped maxParseStackDepth c (cls'.fresh c)) {f : Field C} {v old : Val}
    (hv : Field.Valid (cls.Valid maxParseStackDepth) f v)
    (hold : Field.Shaped (cls'.Shaped maxParseStackDepth) f old) (os : OStream)
    (e : ParsingError) :
    ∃ w, (write cls maxParseStackDepth f v).run ⟨os, e⟩ = some ((), w) ∧
      (w.os.good = true → ∃ bs, w.os = os.put bs ∧
        ∀ (is : IStream) (tail : List UInt8) (e' : ParsingError),
          is.good = true → is.rest = bs ++ tail →
          ∃ r, (read cls' f old).run ⟨is, [], e'⟩ =
              some (receivedField cls' (received cls' unchanged maxParseStackDepth) f old v, r) ∧
            r.is.good = true ∧ r.is.buf = is.buf ∧ r.is.pos = is.pos + bs.length ∧
            r.is.rest = tail ∧ r.stopParsePos = [] ∧ r.lastError = e') := by
  obtain ⟨w, hrun, hw⟩ := writes_write cls hv ⟨os, e⟩
  refine ⟨w, hrun, fun hgood => ?_⟩
  obtain ⟨-, bs, henc, rfl⟩ := hw (OStream.good_eq_true.mp hgood)
  refine ⟨bs, rfl, fun is tail e' hg hrest => ?_⟩
  have hread := reads_read hver henc old ⟨is, [], e'⟩ tail hg hrest (by simp [ReadState.Room])
    (Nat.le_refl _)
  rw [receivedField_congr hfresh (fun _ _ v h => received_keep hfresh h v) hold] at hread
  have hle : bs.length ≤ is.rest.length := by
    rw [hrest, List.length_append]
    omega
  exact ⟨_, hread, hg, rfl, IStream.pos_advance hle, IStream.rest_advance_of_prefix hrest, rfl, rfl⟩

/-- Another version of the classes: a point has more fields, a shape has fewer. -/
def demoNext : Classes Demo where
  fields
    | .point => [.literal 2, .string, .wstring, .chars 3]
    | .shape => [.object .point, .vectorBool, .vector (.literal 4), .vectorPtr .point]
  fresh
    | .point => .object [.literal [0, 0], .string [], .wstring [], .chars [0, 0, 0]]
    | .shape => .object [.object [.literal [0, 0], .string [], .wstring [], .chars [0, 0, 0]],
        .bools [], .items [], .pointers []]
  indeterminate size := List.replicate size 0xCC

theorem demoNext_versions : demo.Versions demoNext := by
  intro c
  cases c with
  | point => exact Or.inr ⟨[.wstring, .chars 3], rfl⟩
  | shape => exact Or.inl ⟨_, rfl⟩

/-- A point of the other version. -/
def pointNext (name : List UInt8) (label : List UInt32) (array : List UInt8) : Val :=
  .object [.literal [1, 2], .string name, .wstring label, .chars array]

theorem pointNext_shaped (n : ℕ) (x name : List UInt8) (label : List UInt32)
    (array : List UInt8) :
    demoNext.Shaped n .point
      (.object [.literal x, .string name, .wstring label, .chars array]) := by
  cases n with
  | zero => trivial
  | succ n => exact ⟨_, rfl, .cons .literal (.cons .string (.cons .wstring (.cons .chars .nil)))⟩

theorem shapeNext_shaped (n : ℕ) {p : Val} (hp : ∀ n, demoNext.Shaped n .point p) :
    demoNext.Shaped n .shape (.object [p, .bools [], .items [], .pointers []]) := by
  cases n with
  | zero => trivial
  | succ n =>
    exact ⟨_, rfl,
      .cons (.object (hp n)) (.cons .vectorBool (.cons .vector (.cons .vectorPtr .nil)))⟩

theorem demoNext_fresh (n : ℕ) (c : Demo) : demoNext.Shaped n c (demoNext.fresh c) := by
  cases c with
  | point => exact pointNext_shaped n _ _ _ _
  | shape => exact shapeNext_shaped n fun n => pointNext_shaped n _ _ _ _

/-- A shape is read into one of the other version: the points keep their labels. -/
theorem read_write_versions_shape : ∃ w bs,
    (write demo maxParseStackDepth (.object .shape) (shape 3)).run ⟨OStream.fresh, .none⟩ =
        some ((), w) ∧
      w.os.good = true ∧ w.os = OStream.fresh.put bs ∧
      ∃ r, (read demoNext (.object .shape) (.object [pointNext [90] [7] [80, 81, 0],
          .bools [], .items [], .pointers []])).run ⟨IStream.open_ (bs ++ [0xAA]), [], .none⟩ =
        some (.object [pointNext [65] [7] [80, 81, 0], .bools [true, false],
          .items [.literal [1, 2, 3, 4]], .pointers [none, some (pointNext [66] [] [0, 0, 0])]],
          r) ∧ r.is.good = true ∧ r.is.rest = [0xAA] := by
  obtain ⟨w, hrun, hw⟩ := read_write_versions demoNext_versions (demoNext_fresh _)
    (f := .object .shape) (.typed (.object (Classes.Typed.valid (shape_typed 3))))
    (.object (shapeNext_shaped _ fun n => pointNext_shaped n [1, 2] [90] [7] [80, 81, 0]))
    OStream.fresh .none
  have hgood : w.os.good = true := by
    have hany := good_write_shape
    rw [hrun] at hany
    exact hany
  obtain ⟨bs, hbs, hread⟩ := hw hgood
  obtain ⟨r, hr, hrg, -, -, hrest, -, -⟩ :=
    hread (IStream.open_ (bs ++ [0xAA])) [0xAA] .none rfl rfl
  exact ⟨w, bs, hrun, hgood, hbs, r, hr, hrg, hrest⟩

end Serialize

end AsyncSqlite
