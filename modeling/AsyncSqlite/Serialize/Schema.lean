import AsyncSqlite.Data.Stream
import Mathlib.Data.List.Forall2
import Mathlib.Data.List.TakeWhile

/-!
# AsyncSqlite.Serialize.Schema — what `serialize` writes, and how it looks on the wire

The types that `msg_serialize.h` supports (`Elem`, `Field`), the values of these
types (`Val`) and the wire format as a relation between a type, a value and its
bytes (`Encodes`). The host is little-endian.

A class is a list of fields that its `read` and `write` both visit in order, so
classes may refer to each other and to themselves. Objects are taken level by
level: `Classes.Typed n` and `Classes.Encodes n` are about objects that nest at
most `n` deep, and a field of such an object refers to the level below.

`Field.Typed` lists the values that a round trip gives back as they were. Wide
strings and `char` arrays are not among them (a wide character is cut to two
bytes, an array keeps what is behind the text), nor are sets of pointers, whose
order is that of the addresses: `Field.Valid` adds these. The endian marker is
left out.
-/

namespace AsyncSqlite

universe u

namespace Serialize

/-- `serialize::Type` -/
inductive TypeTag where
  | unknown | literal | string | wstring | vector | map | list | set | endian | userDefined
deriving DecidableEq, Repr

def TypeTag.code : TypeTag → UInt8
  | .unknown => 0
  | .literal => 1
  | .string => 8
  | .wstring => 9
  | .vector => 20
  | .map => 21
  | .list => 22
  | .set => 23
  | .endian => 30
  | .userDefined => 31

inductive ParsingError where
  | none | typeMismatch | streamError | nonSeekableStream | stringTooLong | containerTooMany
  | invalidInput | endOfFile
deriving DecidableEq, Repr

/-- `MAX_STRING_SIZE` -/
def maxStringSize : ℕ := 1024

/-- `MAX_CONTAINER_SIZE` -/
def maxContainerSize : ℕ := 64

/-- `MAX_PARSE_STACK_DEPTH` -/
def maxParseStackDepth : ℕ := 5

/-! ## Sizes -/

/-- The two bytes of a `uint16_t` in memory. -/
def u16 (n : ℕ) : List UInt8 := [UInt8.ofNat n, UInt8.ofNat (n / 256)]

def ofU16 : List UInt8 → ℕ
  | [lo, hi] => lo.toNat + 256 * hi.toNat
  | _ => 0

@[simp] theorem length_u16 (n : ℕ) : (u16 n).length = 2 := rfl

theorem ofU16_u16 {n : ℕ} (h : n < 65536) : ofU16 (u16 n) = n := by
  simp only [u16, ofU16, UInt8.toNat_ofNat']
  omega

/-! ## Types and values -/

/-- What a container holds by value: a built-in type or a class. -/
inductive Elem (C : Type u) where
  | literal (size : ℕ)
  | object (c : C)
deriving DecidableEq

inductive Val where
  /-- the bytes of a built-in type in memory -/
  | literal (bytes : List UInt8)
  | string (s : List UInt8)
  | wstring (s : List UInt32)
  /-- an array of `char`, all of it -/
  | chars (array : List UInt8)
  | bools (l : List Bool)
  /-- a vector, list or set, in iteration order -/
  | items (l : List Val)
  /-- of a set too, in any order -/
  | pointers (l : List (Option Val))
  /-- a map, in iteration order -/
  | entries (l : List (Val × Val))
  | pointerEntries (l : List (Val × Option Val))
  /-- the members that `read` and `write` visit -/
  | object (members : List Val)

/-- The `Compare` of a set or a map. -/
abbrev Less := Val → Val → Bool

/-- Which pointers the `Compare` of a set of pointers takes for one. -/
abbrev Same := Option Val → Option Val → Bool

/-- The type of a class member or of an argument. -/
inductive Field (C : Type u) where
  | literal (size : ℕ)
  | string
  | wstring
  /-- an array of `char` with its capacity -/
  | chars (maxLen : ℕ)
  | object (c : C)
  | vectorBool
  | vector (e : Elem C)
  | vectorPtr (c : C)
  | list (e : Elem C)
  | listPtr (c : C)
  | set (e : Elem C) (less : Less)
  | setPtr (c : C) (same : Same)
  | map (k e : Elem C) (less : Less)
  | mapPtr (k : Elem C) (c : C) (less : Less)

/-- The user classes. -/
structure Classes (C : Type u) where
  /-- what `read` and `write` visit, in order -/
  fields : C → List (Field C)
  /-- a default constructed object -/
  fresh : C → Val
  /-- the bytes of an uninitialised variable of a built-in type -/
  indeterminate : ℕ → List UInt8

section Values

variable {C : Type u} (O : C → Val → Prop)

inductive Elem.Typed : Elem C → Val → Prop where
  | literal {n bytes} : 0 < n → bytes.length = n → Typed (.literal n) (.literal bytes)
  | object {c v} : O c v → Typed (.object c) v

/-- A set or map holds its keys in the order of its `Compare`. -/
inductive Field.Typed : Field C → Val → Prop where
  | literal {n bytes} : 0 < n → bytes.length = n → Typed (.literal n) (.literal bytes)
  | string {s} : Typed .string (.string s)
  | object {c v} : O c v → Typed (.object c) v
  | vectorBool {l} : Typed .vectorBool (.bools l)
  | vector {e l} : (∀ v ∈ l, Elem.Typed O e v) → Typed (.vector e) (.items l)
  | vectorPtr {c l} : (∀ v, some v ∈ l → O c v) → Typed (.vectorPtr c) (.pointers l)
  | list {e l} : (∀ v ∈ l, Elem.Typed O e v) → Typed (.list e) (.items l)
  | listPtr {c l} : (∀ v, some v ∈ l → O c v) → Typed (.listPtr c) (.pointers l)
  | set {e less l} : (∀ v ∈ l, Elem.Typed O e v) → l.Pairwise (fun a b => less a b = true) →
      Typed (.set e less) (.items l)
  | map {k e less l} : (∀ p ∈ l, Elem.Typed O k p.1 ∧ Elem.Typed O e p.2) →
      l.Pairwise (fun a b => less a.1 b.1 = true) → Typed (.map k e less) (.entries l)
  | mapPtr {k c less l} : (∀ p ∈ l, Elem.Typed O k p.1 ∧ ∀ v, p.2 = some v → O c v) →
      l.Pairwise (fun a b => less a.1 b.1 = true) → Typed (.mapPtr k c less) (.pointerEntries l)

/-- Any value of the type; an array of `char` holds a text with its null. -/
inductive Field.Valid : Field C → Val → Prop where
  | typed {f v} : Field.Typed O f v → Valid f v
  | wstring {s} : Valid .wstring (.wstring s)
  | chars {n array} : array.length = n → 0 ∈ array → Valid (.chars n) (.chars array)
  | setPtr {c same l} : (∀ v, some v ∈ l → O c v) → l.Pairwise (fun a b => same a b = false) →
      Valid (.setPtr c same) (.pointers l)

end Values

/-- Objects of class `c` that nest at most `n` deep. -/
def Classes.Typed {C : Type u} (cls : Classes C) : ℕ → C → Val → Prop
  | 0, _, _ => False
  | n + 1, c, v => ∃ members, v = .object members ∧
      List.Forall₂ (Field.Typed (cls.Typed n)) (cls.fields c) members

def Classes.Valid {C : Type u} (cls : Classes C) : ℕ → C → Val → Prop
  | 0, _, _ => False
  | n + 1, c, v => ∃ members, v = .object members ∧
      List.Forall₂ (Field.Valid (cls.Valid n)) (cls.fields c) members

section Typed

variable {C : Type u} {O O' : C → Val → Prop}

theorem Elem.Typed.mono (hO : ∀ c v, O c v → O' c v) {e : Elem C} {v : Val}
    (h : Elem.Typed O e v) : Elem.Typed O' e v := by
  cases h with
  | literal hpos hlen => exact .literal hpos hlen
  | object h => exact .object (hO _ _ h)

theorem Field.Typed.mono (hO : ∀ c v, O c v → O' c v) {f : Field C} {v : Val}
    (h : Field.Typed O f v) : Field.Typed O' f v := by
  cases h with
  | literal hpos hlen => exact .literal hpos hlen
  | string => exact .string
  | object h => exact .object (hO _ _ h)
  | vectorBool => exact .vectorBool
  | vector h => exact .vector fun v hv => (h v hv).mono hO
  | vectorPtr h => exact .vectorPtr fun v hv => hO _ _ (h v hv)
  | list h => exact .list fun v hv => (h v hv).mono hO
  | listPtr h => exact .listPtr fun v hv => hO _ _ (h v hv)
  | set h hl => exact .set (fun v hv => (h v hv).mono hO) hl
  | map h hl => exact .map (fun p hp => ⟨(h p hp).1.mono hO, (h p hp).2.mono hO⟩) hl
  | mapPtr h hl =>
    exact .mapPtr (fun p hp => ⟨(h p hp).1.mono hO, fun v hv => hO _ _ ((h p hp).2 v hv)⟩) hl

theorem Classes.Typed.valid {cls : Classes C} {n : ℕ} {c : C} {v : Val} (h : cls.Typed n c v) :
    cls.Valid n c v := by
  induction n generalizing c v with
  | zero => exact h
  | succ n ih =>
    obtain ⟨members, rfl, hm⟩ := h
    exact ⟨members, rfl, hm.imp fun _ _ h => .typed (h.mono fun _ _ => ih)⟩

end Typed

/-! ## Text -/

/-- The `WCHAR_SIZE` bytes of a wide character that are written. -/
def wideBytes (c : UInt32) : List UInt8 := u16 c.toNat

/-- A wide character of the bytes that are read. -/
def wideChar (bytes : List UInt8) : UInt32 := UInt32.ofNat (ofU16 bytes)

@[simp] theorem length_wideBytes (c : UInt32) : (wideBytes c).length = 2 := rfl

/-- `static_cast<uint16_t>(strlen(str)) + 1` as a `uint16_t` -/
def textSize (str : List UInt8) : ℕ := ((str.takeWhile (· ≠ 0)).length % 65536 + 1) % 65536

theorem textSize_le {str : List UInt8} (h : 0 ∈ str) : textSize str ≤ str.length := by
  have hlt : (str.takeWhile (· ≠ 0)).length < str.length := by
    refine lt_of_le_of_ne (List.takeWhile_prefix _).length_le fun heq => ?_
    have hself := (List.takeWhile_prefix _).eq_of_length heq
    have hzero := List.mem_takeWhile_imp (hself.symm ▸ h)
    simp at hzero
  unfold textSize
  omega

/-! ## The wire format -/

/-- The values of a list one after the other. -/
inductive Sequence {α : Type u} (R : α → List UInt8 → Prop) : List α → List UInt8 → Prop where
  | nil : Sequence R [] []
  | cons {a l bs cs} : R a bs → Sequence R l cs → Sequence R (a :: l) (bs ++ cs)

/-- A container: its tag, the number of its elements and the elements. -/
inductive Counted {α : Type u} (tag : TypeTag) (R : α → List UInt8 → Prop) :
    List α → List UInt8 → Prop where
  | mk {l bs} : l.length ≤ maxContainerSize → Sequence R l bs →
      Counted tag R l (tag.code :: (u16 l.length ++ bs))

/-- A pair: its first component and its second one. -/
inductive Pair {α β : Type u} (R : α → List UInt8 → Prop) (S : β → List UInt8 → Prop) :
    α × β → List UInt8 → Prop where
  | mk {a b bs cs} : R a bs → S b cs → Pair R S (a, b) (bs ++ cs)

/-- A pointer: the byte of `notNULL`, then the object. -/
inductive Pointer (R : Val → List UInt8 → Prop) : Option Val → List UInt8 → Prop where
  | null : Pointer R none [0]
  | object {v bs} : R v bs → Pointer R (some v) (1 :: bs)

/-- An element of `vector<bool>` has a tag of its own. -/
inductive Flag : Bool → List UInt8 → Prop where
  | mk (b : Bool) : Flag b [TypeTag.literal.code, b.toUInt8]

section Wire

variable {C : Type u} (O : C → Val → List UInt8 → Prop)

/-- A built-in type has no tag inside a container. -/
inductive Elem.Encodes : Elem C → Val → List UInt8 → Prop where
  | literal {n bytes} : 0 < n → bytes.length = n → Encodes (.literal n) (.literal bytes) bytes
  | object {c v bs} : O c v bs → Encodes (.object c) v bs

inductive Field.Encodes : Field C → Val → List UInt8 → Prop where
  | literal {n bytes} : 0 < n → bytes.length = n →
      Encodes (.literal n) (.literal bytes) (TypeTag.literal.code :: bytes)
  | string {s} : s.length ≤ maxStringSize →
      Encodes .string (.string s) (TypeTag.string.code :: (u16 s.length ++ s))
  | wstring {s} : s.length ≤ maxStringSize →
      Encodes .wstring (.wstring s) (TypeTag.wstring.code :: (u16 s.length ++ s.flatMap wideBytes))
  | chars {n array} : array.length = n → 0 ∈ array → textSize array ≤ maxStringSize →
      Encodes (.chars n) (.chars array)
        (TypeTag.string.code :: (u16 (textSize array) ++ array.take (textSize array)))
  | object {c v bs} : O c v bs → Encodes (.object c) v bs
  | vectorBool {l bs} : Counted .vector Flag l bs → Encodes .vectorBool (.bools l) bs
  | vector {e l bs} : Counted .vector (Elem.Encodes O e) l bs → Encodes (.vector e) (.items l) bs
  | vectorPtr {c l bs} : Counted .vector (Pointer (O c)) l bs →
      Encodes (.vectorPtr c) (.pointers l) bs
  | list {e l bs} : Counted .list (Elem.Encodes O e) l bs → Encodes (.list e) (.items l) bs
  | listPtr {c l bs} : Counted .list (Pointer (O c)) l bs → Encodes (.listPtr c) (.pointers l) bs
  | set {e less l bs} : l.Pairwise (fun a b => less a b = true) →
      Counted .set (Elem.Encodes O e) l bs → Encodes (.set e less) (.items l) bs
  | setPtr {c same l bs} : l.Pairwise (fun a b => same a b = false) →
      Counted .set (Pointer (O c)) l bs → Encodes (.setPtr c same) (.pointers l) bs
  | map {k e less l bs} : l.Pairwise (fun a b => less a.1 b.1 = true) →
      Counted .map (Pair (Elem.Encodes O k) (Elem.Encodes O e)) l bs →
      Encodes (.map k e less) (.entries l) bs
  | mapPtr {k c less l bs} : l.Pairwise (fun a b => less a.1 b.1 = true) →
      Counted .map (Pair (Elem.Encodes O k) (Pointer (O c))) l bs →
      Encodes (.mapPtr k c less) (.pointerEntries l) bs

end Wire

/-- The fields of an object one after the other. -/
inductive Members {C : Type u} (R : Field C → Val → List UInt8 → Prop) :
    List (Field C) → List Val → List UInt8 → Prop where
  | nil : Members R [] [] []
  | cons {f fs v vs bs cs} : R f v bs → Members R fs vs cs →
      Members R (f :: fs) (v :: vs) (bs ++ cs)

/-- An object: its tag, its size with the size field included, its members. -/
def Classes.Encodes {C : Type u} (cls : Classes C) : ℕ → C → Val → List UInt8 → Prop
  | 0, _, _, _ => False
  | n + 1, c, v, bs => ∃ members body, v = .object members ∧
      Members (Field.Encodes (cls.Encodes n)) (cls.fields c) members body ∧
      2 + body.length < 65536 ∧
      bs = TypeTag.userDefined.code :: (u16 (2 + body.length) ++ body)

/-! ### No value is written as nothing -/

section NonEmpty

variable {C : Type u} {O : C → Val → List UInt8 → Prop}

theorem Counted.ne_nil {α : Type u} {tag : TypeTag} {R : α → List UInt8 → Prop} {l : List α}
    {bs : List UInt8} (h : Counted tag R l bs) : bs ≠ [] := by
  cases h
  exact List.cons_ne_nil _ _

theorem Classes.Encodes.ne_nil {cls : Classes C} {n : ℕ} {c : C} {v : Val} {bs : List UInt8}
    (h : cls.Encodes n c v bs) : bs ≠ [] := by
  cases n with
  | zero => exact h.elim
  | succ n =>
    obtain ⟨_, _, _, _, _, rfl⟩ := h
    exact List.cons_ne_nil _ _

theorem Elem.Encodes.ne_nil (hO : ∀ c v bs, O c v bs → bs ≠ []) {e : Elem C} {v : Val}
    {bs : List UInt8} (h : Elem.Encodes O e v bs) : bs ≠ [] := by
  cases h with
  | literal hpos hlen =>
    rintro rfl
    simp only [List.length_nil] at hlen
    omega
  | object h => exact hO _ _ _ h

end NonEmpty

/-! ## The checks that `read` and `write` share

On the stream and the error handler of either side. -/

section Checks

variable {m : Type → Type u} [Monad m]

/-- `check_stream` -/
def checkStream (good : m Bool) (fail : ParsingError → m Unit) : m Bool := do
  if !(← good) then
    fail .streamError
  good

/-- `check_slength`: false for an empty string too, without an error. -/
def checkSlength (fail : ParsingError → m Unit) (stringSize : ℕ) : m Bool := do
  if maxStringSize < stringSize then
    fail .stringTooLong
  if stringSize = 0 then
    return false
  return decide (stringSize ≤ maxStringSize)

/-- `check_container_size` -/
def checkContainerSize (fail : ParsingError → m Unit) (containerSize : ℕ) : m Bool := do
  if maxContainerSize < containerSize then
    fail .containerTooMany
  return decide (containerSize ≤ maxContainerSize)

variable {fail : ParsingError → m Unit} {n : ℕ}

theorem checkSlength_of_le (h : n ≤ maxStringSize) :
    checkSlength fail n = pure (decide (n ≠ 0)) := by
  unfold checkSlength
  rw [if_neg (not_lt.mpr h)]
  by_cases hn : n = 0 <;> simp [hn, h]

theorem checkContainerSize_of_le (h : n ≤ maxContainerSize) :
    checkContainerSize fail n = pure true := by
  unfold checkContainerSize
  rw [if_neg (not_lt.mpr h)]
  simp [h]

end Checks

end Serialize

end AsyncSqlite
