import AsyncSqlite.Serialize.Schema

/-!
# AsyncSqlite.Serialize.Write — the `write` overloads

`serialize::write` for the types of `Field`, with the errors it raises and the
size of an object that is filled in after the object is written. `WriteM` is a
state monad over the output stream; `none` only says that the nesting given to
`writeObject` was too small for the value.

`Writes w P` is the specification of a writer: it returns, and if it leaves the
stream good, then the stream was good and what it did is a `put` of bytes that
satisfy `P`. Every overload gets one such lemma, with `P` the wire format of the
value; `writes_object` is the induction on the nesting.
-/

namespace AsyncSqlite

universe u

namespace Serialize

/-- The stream, and `lastError` of the `serialize` instance. -/
structure WriteState where
  os : OStream
  lastError : ParsingError

abbrev WriteM := StateT WriteState Option

def WriteState.put (s : WriteState) (bs : List UInt8) : WriteState := { s with os := s.os.put bs }

/-! ## Helpers of the overloads -/

/-- `raiseError(e)` and `setstate(failbit)`, which always come together. -/
def failWith (e : ParsingError) : WriteM Unit :=
  modify fun s => { s with os := s.os.setFail, lastError := e }

/-- `write_internal`; on a little-endian host the bytes are not reversed. -/
def writeInternal (bytes : List UInt8) : WriteM Unit :=
  modify fun s => { s with os := s.os.write bytes }

/-- `write_type` -/
def writeType (t : TypeTag) : WriteM Unit := writeInternal [t.code]

/-- `write(os, t, prependType)` for a built-in type -/
def writeLiteral (bytes : List UInt8) (prependType : Bool) : WriteM Unit := do
  if prependType then
    writeType .literal
  writeInternal bytes

/-- `os.good()` -/
def goodW : WriteM Bool := do return (← get).os.good

/-- `write(os, std::string)` -/
def writeString (s : List UInt8) : WriteM Unit := do
  if maxStringSize < s.length then
    failWith .stringTooLong
  else
    writeType .string
    writeLiteral (u16 s.length) false
    if ← checkStream goodW failWith then
      if ← checkSlength failWith s.length then
        writeInternal s

/-- `write(os, std::wstring)` -/
def writeWString (s : List UInt32) : WriteM Unit := do
  if maxStringSize < s.length then
    failWith .stringTooLong
  else
    writeType .wstring
    writeLiteral (u16 s.length) false
    if ← checkStream goodW failWith then
      if ← checkSlength failWith s.length then
        s.forM fun c => writeInternal (wideBytes c)

/-- `write(os, const char*)`; here the size is only checked after it is written. -/
def writeChars (str : List UInt8) : WriteM Unit := do
  let size := textSize str
  writeType .string
  writeLiteral (u16 size) false
  if ← checkStream goodW failWith then
    if ← checkSlength failWith size then
      writeInternal (str.take size)

/-- What the container overloads share: the size check, the tag, the size, and
`body` for every element. -/
def writeContainer {α : Type u} (tag : TypeTag) (l : List α) (body : α → WriteM Unit) :
    WriteM Unit := do
  if maxContainerSize < l.length then
    failWith .containerTooMany
  else
    writeType tag
    writeLiteral (u16 l.length) false
    if ← checkStream goodW failWith then
      if ← checkContainerSize failWith l.length then
        l.forM body

/-- The end of `write(os, I*)`: the size of the object goes to `elementSizePos`,
where two bytes were left for it. -/
def backfillSize (elementSizePos : ℤ) : WriteM Unit := do
  let currentPos := (← get).os.tellp
  modify fun s => { s with os := s.os.seekp elementSizePos }
  let sizeDiff := currentPos - elementSizePos
  if sizeDiff > 65535 then
    failWith .invalidInput
  else
    writeLiteral (u16 sizeDiff.toNat) false
    modify fun s => { s with os := s.os.seekp currentPos }

/-- `write(os, I*)`, where `members` is the `write` of the object. -/
def writeUser (members : WriteM Unit) : WriteM Unit := do
  writeType .userDefined
  let elementSizePos := (← get).os.tellp
  if elementSizePos = -1 then
    failWith .nonSeekableStream
  else
    writeLiteral (u16 0) false
    members
    if (← get).os.good then
      backfillSize elementSizePos

/-! ## The overloads -/

section Overloads

variable {C : Type u} (obj : C → Val → WriteM Unit)

/-- `write(os, item, false)` -/
def writeElem : Elem C → Val → WriteM Unit
  | .literal _, .literal bytes => writeLiteral bytes false
  | .object c, v => obj c v
  | _, _ => pure ()

/-- An element of a container of pointers. -/
def writePointer (c : C) : Option Val → WriteM Unit
  | some v => do
    writeLiteral [1] false
    obj c v
  | none => writeLiteral [0] false

/-- `write(os, std::vector<bool>)` -/
def writeVectorBool (l : List Bool) : WriteM Unit :=
  writeContainer .vector l fun b => writeLiteral [b.toUInt8] true

/-- `write(os, std::vector<T>)` -/
def writeVector (e : Elem C) (l : List Val) : WriteM Unit :=
  writeContainer .vector l (writeElem obj e)

/-- `write(os, std::vector<T*>)` -/
def writeVectorPtr (c : C) (l : List (Option Val)) : WriteM Unit :=
  writeContainer .vector l (writePointer obj c)

/-- `write(os, std::list<T>)` -/
def writeList (e : Elem C) (l : List Val) : WriteM Unit :=
  writeContainer .list l (writeElem obj e)

/-- `write(os, std::list<T*>)` -/
def writeListPtr (c : C) (l : List (Option Val)) : WriteM Unit :=
  writeContainer .list l (writePointer obj c)

/-- `write(os, std::set<T>)` -/
def writeSet (e : Elem C) (l : List Val) : WriteM Unit :=
  writeContainer .set l (writeElem obj e)

/-- `write(os, std::set<T*>)` -/
def writeSetPtr (c : C) (l : List (Option Val)) : WriteM Unit :=
  writeContainer .set l (writePointer obj c)

/-- `write(os, std::map<K, V>)` -/
def writeMap (k e : Elem C) (l : List (Val × Val)) : WriteM Unit :=
  writeContainer .map l fun entry => do
    writeElem obj k entry.1
    writeElem obj e entry.2

/-- `write(os, std::map<K, V*>)` -/
def writeMapPtr (k : Elem C) (c : C) (l : List (Val × Option Val)) : WriteM Unit :=
  writeContainer .map l fun entry => do
    writeElem obj k entry.1
    writePointer obj c entry.2

/-- `write(os, t)` by the type of `t`. -/
def writeField : Field C → Val → WriteM Unit
  | .literal _, .literal bytes => writeLiteral bytes true
  | .string, .string s => writeString s
  | .wstring, .wstring s => writeWString s
  | .chars _, .chars array => writeChars array
  | .object c, v => obj c v
  | .vectorBool, .bools l => writeVectorBool l
  | .vector e, .items l => writeVector obj e l
  | .vectorPtr c, .pointers l => writeVectorPtr obj c l
  | .list e, .items l => writeList obj e l
  | .listPtr c, .pointers l => writeListPtr obj c l
  | .set e _, .items l => writeSet obj e l
  | .setPtr c _, .pointers l => writeSetPtr obj c l
  | .map k e _, .entries l => writeMap obj k e l
  | .mapPtr k c _, .pointerEntries l => writeMapPtr obj k c l
  | _, _ => pure ()

/-- The `write` of an object: its members in the order of its fields. -/
def writeMembers : List (Field C) → List Val → WriteM Unit
  | f :: fs, v :: vs => do
    writeField obj f v
    writeMembers fs vs
  | _, _ => pure ()

end Overloads

/-- `write(os, I*)` for objects that nest at most `n` deep. -/
def writeObject {C : Type u} (cls : Classes C) : ℕ → C → Val → WriteM Unit
  | 0, _, _ => StateT.lift none
  | n + 1, c, .object members =>
    writeUser (writeMembers (writeObject cls n) (cls.fields c) members)
  | _ + 1, _, _ => pure ()

/-- `serialize::write(os, v)` -/
def write {C : Type u} (cls : Classes C) (n : ℕ) (f : Field C) (v : Val) : WriteM Unit :=
  writeField (writeObject cls n) f v

/-! ## What a writer does -/

def Writes (w : WriteM Unit) (P : List UInt8 → Prop) : Prop :=
  ∀ s, ∃ s', w.run s = some ((), s') ∧
    (s'.os.failbit = false → s.os.failbit = false ∧ ∃ bs, P bs ∧ s' = s.put bs)

section Rules

variable {w w' : WriteM Unit} {P Q R : List UInt8 → Prop}

theorem WriteState.put_put (s : WriteState) (a b : List UInt8) :
    (s.put a).put b = s.put (a ++ b) := by
  simp only [WriteState.put, OStream.put_put]

theorem Writes.mono (hw : Writes w P) (h : ∀ bs, P bs → Q bs) : Writes w Q := by
  intro s
  obtain ⟨s', hrun, hs'⟩ := hw s
  refine ⟨s', hrun, fun hg => ?_⟩
  obtain ⟨hg', bs, hP, rfl⟩ := hs' hg
  exact ⟨hg', bs, h bs hP, rfl⟩

theorem Writes.bind (hw : Writes w P) (hw' : Writes w' Q)
    (h : ∀ a b, P a → Q b → R (a ++ b)) : Writes (w >>= fun _ => w') R := by
  intro s
  obtain ⟨s₁, hrun₁, hs₁⟩ := hw s
  obtain ⟨s₂, hrun₂, hs₂⟩ := hw' s₁
  refine ⟨s₂, ?_, fun hg => ?_⟩
  · rw [StateT.run_bind, hrun₁]
    exact hrun₂
  · obtain ⟨hg₁, b, hb, rfl⟩ := hs₂ hg
    obtain ⟨hg₀, a, ha, rfl⟩ := hs₁ hg₁
    exact ⟨hg₀, a ++ b, h a b ha hb, s.put_put a b⟩

theorem writes_pure : Writes (pure ()) fun bs => bs = [] := by
  intro s
  refine ⟨s, rfl, fun hg => ⟨hg, [], rfl, ?_⟩⟩
  simp [WriteState.put]

theorem writes_failWith {e : ParsingError} : Writes (failWith e) P := by
  intro s
  exact ⟨_, rfl, fun hg => by cases hg⟩

theorem run_writeInternal_of_good {s : WriteState} (hg : s.os.failbit = false)
    (bytes : List UInt8) : (writeInternal bytes).run s = some ((), s.put bytes) := by
  show some ((), WriteState.mk (s.os.write bytes) s.lastError) = _
  rw [OStream.write_of_good hg]
  rfl

theorem run_writeLiteral_of_good {s : WriteState} (hg : s.os.failbit = false)
    (bytes : List UInt8) : (writeLiteral bytes false).run s = some ((), s.put bytes) :=
  run_writeInternal_of_good hg bytes

theorem writes_internal (bytes : List UInt8) :
    Writes (writeInternal bytes) fun bs => bs = bytes := by
  intro s
  cases hf : s.os.failbit with
  | false => exact ⟨_, run_writeInternal_of_good hf bytes, fun _ => ⟨rfl, bytes, rfl, rfl⟩⟩
  | true =>
    refine ⟨{ s with os := s.os.write bytes }, rfl, fun hg => ?_⟩
    rw [OStream.failbit_write, hf] at hg
    cases hg

theorem writes_literal (bytes : List UInt8) :
    Writes (writeLiteral bytes false) fun bs => bs = bytes := writes_internal bytes

theorem writes_tagged (bytes : List UInt8) :
    Writes (writeLiteral bytes true) fun bs => bs = TypeTag.literal.code :: bytes := by
  refine (writes_internal _).bind (writes_internal _) ?_
  rintro _ _ rfl rfl
  rfl

theorem run_checkStream_of_goodW {s : WriteState} (hg : s.os.failbit = false) :
    (checkStream goodW failWith).run s = some (true, s) := by
  have hgood : s.os.good = true := OStream.good_eq_true.mpr hg
  simp [checkStream, goodW, hgood]

theorem run_checkStream_of_failW {s : WriteState} (hf : s.os.failbit = true) :
    (checkStream goodW failWith).run s = some (false, ⟨s.os.setFail, .streamError⟩) := by
  have hbad : s.os.good = false := by
    simp [OStream.good, hf]
  simp [checkStream, goodW, failWith, hbad]
  rfl

/-- `check_stream` lets a good stream pass and stops at any other. -/
theorem Writes.checkStream (hw : Writes w P) :
    Writes (do if ← checkStream goodW failWith then w) P := by
  intro s
  cases hg : s.os.failbit with
  | false =>
    obtain ⟨s', hrun, hs'⟩ := hw s
    rw [hg] at hs'
    refine ⟨s', ?_, hs'⟩
    rw [StateT.run_bind, run_checkStream_of_goodW hg]
    exact hrun
  | true =>
    refine ⟨⟨s.os.setFail, .streamError⟩, ?_, fun h => by cases h⟩
    rw [StateT.run_bind, run_checkStream_of_failW hg]
    rfl

/-- `check_slength` stops at a text that is too long, with an error, and at an
empty one. -/
theorem Writes.checkSlength {n : ℕ} (hzero : n = 0 → P []) (hw : Writes w P) :
    Writes (do if ← checkSlength failWith n then w) fun bs => n ≤ maxStringSize ∧ P bs := by
  rcases Nat.lt_or_ge maxStringSize n with hlong | hlen
  · intro s
    have hne : n ≠ 0 := by
      rintro rfl
      cases hlong
    refine ⟨⟨s.os.setFail, .stringTooLong⟩, ?_, fun hg => by cases hg⟩
    simp [Serialize.checkSlength, failWith, hlong, hne, not_le.mpr hlong]
  · rw [checkSlength_of_le hlen]
    by_cases hn : n = 0
    · subst hn
      refine writes_pure.mono ?_
      rintro _ rfl
      exact ⟨hlen, hzero rfl⟩
    · simp only [hn, ne_eq, not_false_eq_true, decide_true, pure_bind, if_true]
      exact hw.mono fun bs hP => ⟨hlen, hP⟩

/-- What the text overloads share behind their tag. -/
theorem writes_text {n : ℕ} {body : List UInt8} (hzero : n = 0 → body = [])
    (hw : Writes w fun bs => bs = body) :
    Writes (do writeLiteral (u16 n) false
               if ← Serialize.checkStream goodW failWith then
                 if ← Serialize.checkSlength failWith n then w)
      fun bs => n ≤ maxStringSize ∧ bs = u16 n ++ body := by
  refine (writes_literal _).bind (Writes.checkSlength (fun h => (hzero h).symm) hw).checkStream ?_
  rintro _ _ rfl ⟨hlen, rfl⟩
  exact ⟨hlen, rfl⟩

/-- The elements of a container one after the other. -/
theorem writes_forM {α : Type u} {body : α → WriteM Unit} {E : α → List UInt8 → Prop}
    {l : List α} (hbody : ∀ a ∈ l, Writes (body a) (E a)) :
    Writes (l.forM body) (Sequence E l) := by
  induction l with
  | nil =>
    refine writes_pure.mono ?_
    rintro _ rfl
    exact .nil
  | cons a l ih =>
    have ha := hbody a (List.mem_cons_self ..)
    have hl := ih fun b hb => hbody b (List.mem_cons_of_mem _ hb)
    exact ha.bind hl fun _ _ h h' => .cons h h'

theorem writes_string (str : List UInt8) :
    Writes (writeString str) fun bs => str.length ≤ maxStringSize ∧
      bs = TypeTag.string.code :: (u16 str.length ++ str) := by
  unfold writeString
  split
  · exact writes_failWith
  · refine (writes_internal _).bind (writes_text List.eq_nil_of_length_eq_zero
      (writes_internal str)) ?_
    rintro _ _ rfl ⟨hlen, rfl⟩
    exact ⟨hlen, rfl⟩

theorem Sequence.flatMap_eq {α : Type u} {f : α → List UInt8} {l : List α} {bs : List UInt8}
    (h : Sequence (fun a bs => bs = f a) l bs) : bs = l.flatMap f := by
  induction h with
  | nil => rfl
  | cons ha _ ih => rw [List.flatMap_cons, ha, ih]

theorem writes_wstring (str : List UInt32) :
    Writes (writeWString str) fun bs => str.length ≤ maxStringSize ∧
      bs = TypeTag.wstring.code :: (u16 str.length ++ str.flatMap wideBytes) := by
  have hbody : Writes (str.forM fun c => writeInternal (wideBytes c))
      fun bs => bs = str.flatMap wideBytes :=
    (writes_forM fun c _ => writes_internal (wideBytes c)).mono fun _ => Sequence.flatMap_eq
  unfold writeWString
  split
  · exact writes_failWith
  · refine (writes_internal _).bind (writes_text (fun h => ?_) hbody) ?_
    · rw [List.eq_nil_of_length_eq_zero h]
      rfl
    · rintro _ _ rfl ⟨hlen, rfl⟩
      exact ⟨hlen, rfl⟩

theorem writes_chars (str : List UInt8) :
    Writes (writeChars str) fun bs => textSize str ≤ maxStringSize ∧
      bs = TypeTag.string.code :: (u16 (textSize str) ++ str.take (textSize str)) := by
  refine (writes_internal _).bind (writes_text (fun h => ?_) (writes_internal _)) ?_
  · rw [h]
    rfl
  · rintro _ _ rfl ⟨hlen, rfl⟩
    exact ⟨hlen, rfl⟩

theorem writes_container {α : Type u} {tag : TypeTag} {body : α → WriteM Unit}
    {E : α → List UInt8 → Prop} {l : List α} (hbody : ∀ a ∈ l, Writes (body a) (E a)) :
    Writes (writeContainer tag l body) (Counted tag E l) := by
  unfold writeContainer
  split
  · exact writes_failWith
  · rename_i hlen
    rw [not_lt] at hlen
    have hloop : Writes (do if ← checkContainerSize failWith l.length then l.forM body)
        (Sequence E l) := by
      rw [checkContainerSize_of_le hlen]
      exact writes_forM hbody
    have hrest : Writes (do writeLiteral (u16 l.length) false
                            if ← checkStream goodW failWith then
                              if ← checkContainerSize failWith l.length then l.forM body)
        fun bs => ∃ cs, Sequence E l cs ∧ bs = u16 l.length ++ cs := by
      refine (writes_literal _).bind hloop.checkStream ?_
      rintro _ cs rfl hcs
      exact ⟨cs, hcs, rfl⟩
    refine (writes_internal _).bind hrest ?_
    rintro _ _ rfl ⟨cs, hcs, rfl⟩
    exact .mk hlen hcs

theorem run_backfillSize {s : WriteState} {body : List UInt8} (hg : s.os.failbit = false)
    (hlen : 2 + body.length < 65536) :
    (backfillSize s.os.pos).run (s.put (u16 0 ++ body)) =
      some ((), s.put (u16 (2 + body.length) ++ body)) := by
  have htell : (s.put (u16 0 ++ body)).os.tellp = (s.os.pos + (u16 0 ++ body).length : ℕ) :=
    OStream.tellp_of_good hg
  have hdiff : ((s.os.pos + (u16 0 ++ body).length : ℕ) : ℤ) - s.os.pos =
      (2 + body.length : ℕ) := by
    rw [List.length_append, length_u16]
    omega
  have hle : ¬ ((2 + body.length : ℕ) : ℤ) > 65535 := by
    omega
  have hback : ((s.put (u16 0 ++ body)).os.seekp s.os.pos).failbit = false := by
    exact congrArg OStream.failbit (OStream.seekp_put_pos hg)
  have hpatch := @OStream.put_patch s.os (u16 0) (u16 (2 + body.length)) body hg rfl
  unfold backfillSize
  simp only [StateT.run_bind, StateT.run_get, Option.pure_def, Option.bind_eq_bind,
    Option.bind_some, htell, hdiff, hle, if_false, Int.toNat_natCast]
  show some ((), WriteState.mk ((((s.put (u16 0 ++ body)).os.seekp s.os.pos).write
    (u16 (2 + body.length))).seekp _) s.lastError) = _
  rw [OStream.write_of_good hback]
  exact congrArg (fun os => some ((), WriteState.mk os s.lastError)) hpatch

/-- An object that does not fit its size field ends in an error. -/
theorem run_backfillSize_of_long {s : WriteState} {body : List UInt8} (hg : s.os.failbit = false)
    (hlen : 65536 ≤ 2 + body.length) :
    ∃ s', (backfillSize s.os.pos).run (s.put (u16 0 ++ body)) = some ((), s') ∧
      s'.os.failbit = true := by
  have htell : (s.put (u16 0 ++ body)).os.tellp = (s.os.pos + (u16 0 ++ body).length : ℕ) :=
    OStream.tellp_of_good hg
  have hgt : ((s.os.pos + (u16 0 ++ body).length : ℕ) : ℤ) - s.os.pos > 65535 := by
    rw [List.length_append, length_u16]
    omega
  unfold backfillSize
  simp only [StateT.run_bind, StateT.run_get, Option.pure_def, Option.bind_eq_bind,
    Option.bind_some, htell, hgt, if_true]
  exact ⟨_, rfl, rfl⟩

theorem writes_user {members : WriteM Unit} (hm : Writes members P) :
    Writes (writeUser members) fun bs => ∃ body, P body ∧ 2 + body.length < 65536 ∧
      bs = TypeTag.userDefined.code :: (u16 (2 + body.length) ++ body) := by
  intro s
  cases hg : s.os.failbit with
  | true =>
    refine ⟨⟨s.os.setFail, .nonSeekableStream⟩, ?_, fun h => by cases h⟩
    simp [writeUser, writeType, writeInternal, OStream.write_of_fail hg, OStream.tellp_of_fail hg,
      failWith]
  | false =>
    have htype : (writeType .userDefined).run s = some ((), s.put [TypeTag.userDefined.code]) :=
      run_writeInternal_of_good hg _
    -- `s₁` is the state at the size field
    obtain ⟨s₁, hs₁⟩ : ∃ s₁, s₁ = s.put [TypeTag.userDefined.code] := ⟨_, rfl⟩
    rw [← hs₁] at htype
    have hg₁ : s₁.os.failbit = false := by
      rw [hs₁]
      exact hg
    have htell := OStream.tellp_of_good hg₁
    have hne : ((s₁.os.pos : ℕ) : ℤ) ≠ -1 := by
      omega
    obtain ⟨s₂, hrun, hs₂⟩ := hm (s₁.put (u16 0))
    have hsize := run_writeLiteral_of_good hg₁ (u16 0)
    have hhead : (writeUser members).run s =
        (do if (← get).os.good then backfillSize s₁.os.pos : WriteM Unit).run s₂ := by
      simp only [writeUser, StateT.run_bind, htype, Option.bind_eq_bind, Option.bind_some,
        StateT.run_get, Option.pure_def, htell, hne, if_false, hsize, hrun]
    cases hf : s₂.os.failbit with
    | true =>
      refine ⟨s₂, ?_, fun h => ?_⟩
      · rw [hhead]
        simp [OStream.good, hf]
      · rw [hf] at h
        cases h
    | false =>
      obtain ⟨-, body, hP, rfl⟩ := hs₂ hf
      have hgood : ((s₁.put (u16 0)).put body).os.good = true := OStream.good_eq_true.mpr hf
      have hback : (writeUser members).run s =
          (backfillSize s₁.os.pos).run (s₁.put (u16 0 ++ body)) := by
        rw [hhead, ← WriteState.put_put]
        simp only [StateT.run_bind, StateT.run_get, Option.pure_def, Option.bind_eq_bind,
          Option.bind_some, hgood, if_true]
      rcases Nat.lt_or_ge (2 + body.length) 65536 with hlen | hlen
      · refine ⟨_, hback.trans (run_backfillSize hg₁ hlen), fun _ => ?_⟩
        refine ⟨rfl, _, ⟨body, hP, hlen, rfl⟩, ?_⟩
        rw [hs₁, WriteState.put_put]
        rfl
      · obtain ⟨s₃, hrun₃, hf₃⟩ := run_backfillSize_of_long hg₁ hlen
        refine ⟨s₃, hback.trans hrun₃, fun h => ?_⟩
        rw [hf₃] at h
        cases h

end Rules

section Overloads

variable {C : Type u} {obj : C → Val → WriteM Unit} {O : C → Val → Prop}
  {E : C → Val → List UInt8 → Prop}

theorem writes_elem (hobj : ∀ c v, O c v → Writes (obj c v) (E c v)) {e : Elem C} {v : Val}
    (h : Elem.Typed O e v) : Writes (writeElem obj e v) (Elem.Encodes E e v) := by
  cases h with
  | literal hpos hlen =>
    refine (writes_literal _).mono ?_
    rintro _ rfl
    exact .literal hpos hlen
  | object h => exact (hobj _ _ h).mono fun _ => .object

theorem writes_pointer (hobj : ∀ c v, O c v → Writes (obj c v) (E c v)) {c : C} {p : Option Val}
    (h : ∀ v, p = some v → O c v) : Writes (writePointer obj c p) (Pointer (E c) p) := by
  cases p with
  | none =>
    refine (writes_literal _).mono ?_
    rintro _ rfl
    exact .null
  | some v =>
    refine (writes_literal _).bind (hobj c v (h v rfl)) ?_
    rintro _ bs rfl hbs
    exact .object hbs

theorem Writes.pair {α β : Type u} {w w' : WriteM Unit} {R : α → List UInt8 → Prop}
    {S : β → List UInt8 → Prop} {p : α × β} (hw : Writes w (R p.1)) (hw' : Writes w' (S p.2)) :
    Writes (do w; w') (Pair R S p) :=
  hw.bind hw' fun _ _ h h' => .mk h h'

theorem writes_typed (hobj : ∀ c v, O c v → Writes (obj c v) (E c v)) {f : Field C} {v : Val}
    (h : Field.Typed O f v) : Writes (writeField obj f v) (Field.Encodes E f v) := by
  cases h with
  | literal hpos hlen =>
    refine (writes_tagged _).mono ?_
    rintro _ rfl
    exact .literal hpos hlen
  | string =>
    refine (writes_string _).mono ?_
    rintro _ ⟨hlen, rfl⟩
    exact .string hlen
  | object h => exact (hobj _ _ h).mono fun _ => .object
  | vectorBool =>
    have hflag (b : Bool) : Writes (writeLiteral [b.toUInt8] true) (Flag b) := by
      refine (writes_tagged _).mono ?_
      rintro _ rfl
      exact .mk b
    exact (writes_container fun b _ => hflag b).mono fun _ => .vectorBool
  | vector h => exact (writes_container fun v hv => writes_elem hobj (h v hv)).mono fun _ => .vector
  | vectorPtr h =>
    refine (writes_container fun p hp => writes_pointer hobj ?_).mono fun _ => .vectorPtr
    rintro v rfl
    exact h v hp
  | list h => exact (writes_container fun v hv => writes_elem hobj (h v hv)).mono fun _ => .list
  | listPtr h =>
    refine (writes_container fun p hp => writes_pointer hobj ?_).mono fun _ => .listPtr
    rintro v rfl
    exact h v hp
  | set h hs =>
    exact (writes_container fun v hv => writes_elem hobj (h v hv)).mono fun _ => .set hs
  | map h hs =>
    refine (writes_container fun p hp => Writes.pair ?_ ?_).mono fun _ => .map hs
    · exact writes_elem hobj (h p hp).1
    · exact writes_elem hobj (h p hp).2
  | mapPtr h hs =>
    refine (writes_container fun p hp => Writes.pair ?_ ?_).mono fun _ => .mapPtr hs
    · exact writes_elem hobj (h p hp).1
    · exact writes_pointer hobj (h p hp).2

/-- Every overload writes the wire format of its type. -/
theorem writes_field (hobj : ∀ c v, O c v → Writes (obj c v) (E c v)) {f : Field C} {v : Val}
    (h : Field.Valid O f v) : Writes (writeField obj f v) (Field.Encodes E f v) := by
  cases h with
  | typed h => exact writes_typed hobj h
  | @wstring s =>
    refine (writes_wstring s).mono ?_
    rintro _ ⟨hlen, rfl⟩
    exact .wstring hlen
  | @chars n array hn hzero =>
    refine (writes_chars array).mono ?_
    rintro _ ⟨hlen, rfl⟩
    exact .chars hn hzero hlen
  | setPtr h hs =>
    refine (writes_container fun p hp => writes_pointer hobj ?_).mono fun _ => .setPtr hs
    rintro v rfl
    exact h v hp

theorem writes_members (hobj : ∀ c v, O c v → Writes (obj c v) (E c v)) {fs : List (Field C)}
    {vs : List Val} (h : List.Forall₂ (Field.Valid O) fs vs) :
    Writes (writeMembers obj fs vs) (Members (Field.Encodes E) fs vs) := by
  induction h with
  | nil =>
    refine writes_pure.mono ?_
    rintro _ rfl
    exact .nil
  | cons hf _ ih => exact (writes_field hobj hf).bind ih fun _ _ h h' => .cons h h'

end Overloads

/-- By induction on how deep the object nests: its members are written by the
overloads, over the objects of the level below. -/
theorem writes_object {C : Type u} (cls : Classes C) (n : ℕ) (c : C) (v : Val)
    (h : cls.Valid n c v) : Writes (writeObject cls n c v) (cls.Encodes n c v) := by
  induction n generalizing c v with
  | zero => exact h.elim
  | succ n ih =>
    obtain ⟨members, rfl, hm⟩ := h
    refine (writes_user (writes_members ih hm)).mono ?_
    rintro _ ⟨body, hbody, hlen, rfl⟩
    exact ⟨members, body, rfl, hbody, hlen, rfl⟩

theorem writes_write {C : Type u} (cls : Classes C) {n : ℕ} {f : Field C} {v : Val}
    (h : Field.Valid (cls.Valid n) f v) :
    Writes (write cls n f v) (Field.Encodes (cls.Encodes n) f v) :=
  writes_field (writes_object cls n) h

end Serialize

end AsyncSqlite
