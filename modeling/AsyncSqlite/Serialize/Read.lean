import AsyncSqlite.Serialize.Schema
import Mathlib.Data.List.Induction

/-!
# AsyncSqlite.Serialize.Read — the `read` overloads

`serialize::read` for the types of `Field`. `ReadM` is a state monad over the
input stream, the stack of stop positions and `lastError`; `none` is an
`ASSERT_TRUE` that failed, after which the program does not go on. Every reader
takes what its target holds and gives back what it holds afterwards.

`Reads n r bs a` is the specification of a reader: on a good stream with `bs`
ahead, none of it behind the innermost stop position, and with room for `n` more
stop positions, `r` consumes `bs`, and only that, and gives `a`. In
`ReadsUpTo n r bs extra a` the stop position is behind `extra`, which `r` does
not read; `reads_user` skips it.
-/

namespace AsyncSqlite

universe u

namespace Serialize

structure ReadState where
  is : IStream
  /-- the used part of `stopParsePosStack`, innermost first -/
  stopParsePos : List ℤ
  lastError : ParsingError

abbrev ReadM := StateT ReadState Option

def ReadState.push (s : ReadState) (p : ℤ) : ReadState :=
  { s with stopParsePos := p :: s.stopParsePos }

/-! ## Helpers of the overloads -/

/-- `raiseError` -/
def raiseError (e : ParsingError) : ReadM Unit :=
  modify fun s => { s with lastError := e }

/-- `raiseError(e)` and `setstate(failbit)` -/
def failRead (e : ParsingError) : ReadM Unit :=
  modify fun s => { s with is := s.is.setFail, lastError := e }

/-- An operation of the stream. -/
def onStream {α : Type} (f : IStream → α × IStream) : ReadM α :=
  modifyGet fun s => ((f s.is).1, { s with is := (f s.is).2 })

def tellg : ReadM ℤ := onStream IStream.tellg

/-- A `seekg` of the stream. -/
def seek (f : IStream → IStream) : ReadM Unit := modify fun s => { s with is := f s.is }

/-- `is.good()` -/
def goodR : ReadM Bool := do return (← get).is.good

/-- A failed `ASSERT_TRUE`. -/
def fault {α : Type} : ReadM α := StateT.lift none

/-- `check_stop_parse`: whether to stop reading. -/
def checkStopParse : ReadM Bool := do
  if (← get).is.eofbit then
    raiseError .endOfFile
    return true
  match (← get).stopParsePos with
  | [] => return false
  | stopParsePos :: _ => return decide (stopParsePos ≤ (← tellg))

/-- `push_stop_parse_pos` -/
def pushStopParsePos (stopParsePos : ℤ) : ReadM Unit := do
  if (← get).stopParsePos.length < maxParseStackDepth then
    modify fun s => s.push stopParsePos
  else
    fault

/-- `pop_stop_parse_pos` -/
def popStopParsePos : ReadM Unit := do
  match (← get).stopParsePos with
  | [] => fault
  | _ :: stack => modify fun s => { s with stopParsePos := stack }

/-- `got` over the first bytes of a variable of `size` bytes that held `old`. -/
def overlay (size : ℕ) (old got : List UInt8) : List UInt8 :=
  (got ++ old.drop got.length).take size

/-- `read_internal`; on a little-endian host the bytes are not reversed. -/
def readInternal (old : List UInt8) (size : ℕ) : ReadM (List UInt8) := do
  if ← checkStopParse then
    return old
  let got ← onStream (IStream.read · size)
  return overlay size old got

/-- `read_type` -/
def readType (t : TypeTag) : ReadM Bool := do
  match ← onStream IStream.peek with
  | none =>
    failRead .endOfFile
    return false
  | some peeked =>
    if peeked = t.code then
      let _typeByte ← readInternal [0] 1
      return true
    else
      failRead .typeMismatch
      return false

/-- `read(is, t, readPrependedType)` for a built-in type -/
def readLiteral (old : List UInt8) (size : ℕ) (readPrependedType : Bool) :
    ReadM (List UInt8) := do
  if ← checkStopParse then
    return old
  if readPrependedType then
    if !(← readType .literal) then
      return old
  readInternal old size

/-- `uint16_t size = 0; read(is, size, false);` -/
def readSize : ReadM ℕ := do
  let size ← readLiteral (u16 0) 2 false
  return ofU16 size

/-- `read(is, std::string)` -/
def readString (old : List UInt8) : ReadM (List UInt8) := do
  if ← checkStopParse then
    return old
  if ← readType .string then
    let size ← readSize
    if ← checkStream goodR failRead then
      if ← checkSlength failRead size then
        readInternal (List.replicate size 0) size
      else
        return []
    else
      return []
  else
    return old

/-- `read(is, char*, maxLen)` -/
def readChars (old : List UInt8) (maxLen : ℕ) : ReadM (List UInt8) := do
  if ← checkStopParse then
    return old
  if ← readType .string then
    let size ← readSize
    if ← checkStream goodR failRead then
      if ← checkSlength failRead size then
        if maxLen < size then
          failRead .stringTooLong
          return old
        else
          let text ← readInternal (old.take size) size
          return text ++ old.drop size
      else
        return old
    else
      return old
  else
    return old

/-- `for (i = 0; i < size; ++i)` -/
def readLoop {β : Type} (body : β → ReadM β) : ℕ → β → ReadM β
  | 0, container => pure container
  | size + 1, container => do
    let container ← body container
    readLoop body size container

/-- `read(is, std::wstring)` -/
def readWString (old : List UInt32) : ReadM (List UInt32) := do
  if ← checkStopParse then
    return old
  if ← readType .wstring then
    let size ← readSize
    if ← checkStream goodR failRead then
      if ← checkSlength failRead size then
        readLoop (fun s => do return s ++ [wideChar (← readInternal [0, 0] 2)]) size []
      else
        return []
    else
      return []
  else
    return old

/-- What the container overloads share: the clearing, the tag, the size, the
size check, and `body` as often as the size says. -/
def readContainer {β : Type} (tag : TypeTag) (old empty : β) (body : β → ReadM β) : ReadM β := do
  if ← checkStopParse then
    return old
  if ← readType tag then
    let size ← readSize
    if ← checkStream goodR failRead then
      if ← checkContainerSize failRead size then
        readLoop body size empty
      else
        return empty
    else
      return empty
  else
    return empty

/-- The end of `read(is, I*)`: skip what the sender wrote behind the members. -/
def skipExtra (startPos : ℤ) (size : ℕ) : ReadM Unit := do
  if ← goodR then
    let endPos ← tellg
    let rcvdSize := ((endPos - startPos) % 65536).toNat
    if rcvdSize < size then
      seek (IStream.seekgCur · (size - rcvdSize : ℕ))

/-- The bounds of an object that starts at `startPos`: neither behind the end of
the stream nor behind the end of the object around it. -/
def checkBounds (targetStopPos : ℤ) : ReadM Bool := do
  let dataPos ← tellg
  seek IStream.seekgEnd
  let endPosStream ← tellg
  seek (IStream.seekg · dataPos)
  if endPosStream < targetStopPos then
    failRead .invalidInput
    return false
  match (← get).stopParsePos with
  | [] => return true
  | stopParsePos :: _ =>
    if stopParsePos < targetStopPos then
      failRead .invalidInput
      return false
    else
      return true

/-- `read(is, I*)`, where `members` is the `read` of the object. -/
def readUser {α : Type} (old : α) (members : ReadM α) : ReadM α := do
  if ← checkStopParse then
    return old
  if ← readType .userDefined then
    let startPos ← tellg
    if startPos = -1 then
      failRead .nonSeekableStream
      return old
    let size ← readSize
    if ← checkBounds (startPos + size) then
      pushStopParsePos (startPos + size)
      let t ← members
      popStopParsePos
      skipExtra startPos size
      return t
    else
      return old
  else
    return old

/-! ## Containers with an order -/

/-- `std::set::insert` -/
def insertItem (less : Less) (a : Val) : List Val → List Val
  | [] => [a]
  | b :: l =>
    if less b a then b :: insertItem less a l
    else if less a b then a :: b :: l
    else b :: l

/-- `std::set::insert` for pointers, which are kept in the order of their arrival -/
def insertRef (same : Same) (a : Option Val) (l : List (Option Val)) : List (Option Val) :=
  if l.any (same · a) then l else l ++ [a]

/-- `container[key] = value` of a map -/
def assignEntry {β : Type} (less : Less) (k : Val) (v : β) : List (Val × β) → List (Val × β)
  | [] => [(k, v)]
  | e :: l =>
    if less e.1 k then e :: assignEntry less k v l
    else if less k e.1 then (k, v) :: e :: l
    else (e.1, v) :: l

/-! ## What a target of some type holds -/

def Val.bytes : Val → List UInt8
  | .literal bytes => bytes
  | _ => []

def Val.text : Val → List UInt8
  | .string s => s
  | _ => []

def Val.wide : Val → List UInt32
  | .wstring s => s
  | _ => []

def Val.array : Val → List UInt8
  | .chars array => array
  | _ => []

def Val.flags : Val → List Bool
  | .bools l => l
  | _ => []

def Val.values : Val → List Val
  | .items l => l
  | _ => []

def Val.refs : Val → List (Option Val)
  | .pointers l => l
  | _ => []

def Val.pairs : Val → List (Val × Val)
  | .entries l => l
  | _ => []

def Val.refPairs : Val → List (Val × Option Val)
  | .pointerEntries l => l
  | _ => []

def Val.members : Val → List Val
  | .object members => members
  | _ => []

/-! ## The overloads -/

section Overloads

variable {C : Type u} (cls : Classes C) (obj : C → Val → ReadM Val)

/-- `read(is, t)` for a class: the overload for any type, then the one for `I*`. -/
def readClass (c : C) (old : Val) : ReadM Val := do
  if ← checkStopParse then
    return old
  obj c old

/-- `T t; read(is, t, false);` -/
def readElem : Elem C → ReadM Val
  | .literal size => do
    let bytes ← readLiteral (cls.indeterminate size) size false
    return .literal bytes
  | .object c => readClass obj c (cls.fresh c)

/-- `read(is, notNULL, false)` and the object, if there is one; `notNULL` is a
variable that holds `init`. -/
def readPointer (init : List UInt8) (c : C) : ReadM (Option Val) := do
  let notNULL ← readLiteral init 1 false
  if notNULL ≠ [0] then
    let object ← obj c (cls.fresh c)
    return some object
  else
    return none

/-- `read(is, std::vector<bool>)` -/
def readVectorBool (old : List Bool) : ReadM (List Bool) :=
  readContainer .vector old [] fun container => do
    let t ← readLiteral (cls.indeterminate 1) 1 true
    return container ++ [decide (t ≠ [0])]

/-- `read(is, std::vector<T>)` -/
def readVector (e : Elem C) (old : List Val) : ReadM (List Val) :=
  readContainer .vector old [] fun container => do
    let t ← readElem cls obj e
    return container ++ [t]

/-- `read(is, std::vector<T*>)` -/
def readVectorPtr (c : C) (old : List (Option Val)) : ReadM (List (Option Val)) :=
  readContainer .vector old [] fun container => do
    let object ← readPointer cls obj [0] c
    return container ++ [object]

/-- `read(is, std::list<T>)` -/
def readList (e : Elem C) (old : List Val) : ReadM (List Val) :=
  readContainer .list old [] fun container => do
    let t ← readElem cls obj e
    return container ++ [t]

/-- `read(is, std::list<T*>)` -/
def readListPtr (c : C) (old : List (Option Val)) : ReadM (List (Option Val)) :=
  readContainer .list old [] fun container => do
    let object ← readPointer cls obj [0] c
    return container ++ [object]

/-- `read(is, std::set<T>)` -/
def readSet (e : Elem C) (less : Less) (old : List Val) : ReadM (List Val) :=
  readContainer .set old [] fun container => do
    let t ← readElem cls obj e
    return insertItem less t container

/-- `read(is, std::set<T*>)` -/
def readSetPtr (c : C) (same : Same) (old : List (Option Val)) : ReadM (List (Option Val)) :=
  readContainer .set old [] fun container => do
    let object ← readPointer cls obj [0] c
    return insertRef same object container

/-- `read(is, std::map<K, V>)` -/
def readMap (k e : Elem C) (less : Less) (old : List (Val × Val)) : ReadM (List (Val × Val)) :=
  readContainer .map old [] fun container => do
    let key ← readElem cls obj k
    let value ← readElem cls obj e
    return assignEntry less key value container

/-- `read(is, std::map<K, V*>)`; here `notNULL` is not initialised. -/
def readMapPtr (k : Elem C) (c : C) (less : Less) (old : List (Val × Option Val)) :
    ReadM (List (Val × Option Val)) :=
  readContainer .map old [] fun container => do
    let key ← readElem cls obj k
    let object ← readPointer cls obj (cls.indeterminate 1) c
    return assignEntry less key object container

/-- `read(is, t)` by the type of `t`. -/
def readField : Field C → Val → ReadM Val
  | .literal size, old => do return .literal (← readLiteral old.bytes size true)
  | .string, old => do return .string (← readString old.text)
  | .wstring, old => do return .wstring (← readWString old.wide)
  | .chars maxLen, old => do return .chars (← readChars old.array maxLen)
  | .object c, old => readClass obj c old
  | .vectorBool, old => do return .bools (← readVectorBool cls old.flags)
  | .vector e, old => do return .items (← readVector cls obj e old.values)
  | .vectorPtr c, old => do return .pointers (← readVectorPtr cls obj c old.refs)
  | .list e, old => do return .items (← readList cls obj e old.values)
  | .listPtr c, old => do return .pointers (← readListPtr cls obj c old.refs)
  | .set e less, old => do return .items (← readSet cls obj e less old.values)
  | .setPtr c same, old => do return .pointers (← readSetPtr cls obj c same old.refs)
  | .map k e less, old => do return .entries (← readMap cls obj k e less old.pairs)
  | .mapPtr k c less, old => do return .pointerEntries (← readMapPtr cls obj k c less old.refPairs)

/-- The `read` of an object: its members in the order of its fields. -/
def readMembers : List (Field C) → List Val → ReadM (List Val)
  | [], _ => pure []
  | f :: fs, olds => do
    let v ← readField cls obj f (olds.headD (.object []))
    let vs ← readMembers fs olds.tail
    return v :: vs

end Overloads

/-- `read(is, I*)`, where objects nest less than `n` deep. Every level pushes a
stop position, so the stack is full before an `n` above its size is used up. -/
def readObject {C : Type u} (cls : Classes C) : ℕ → C → Val → ReadM Val
  | 0, _, _ => fault
  | n + 1, c, old =>
    readUser old do
      return .object (← readMembers cls (readObject cls n) (cls.fields c) old.members)

/-- `serialize::read(is, t)` -/
def read {C : Type u} (cls : Classes C) (f : Field C) (old : Val) : ReadM Val :=
  readField cls (readObject cls (maxParseStackDepth + 1)) f old

/-! ## What a reader does -/

/-- The state after `k` bytes more. -/
def ReadState.advance (s : ReadState) (k : ℕ) : ReadState := { s with is := s.is.advance k }

/-- The next `k` bytes are not behind the innermost stop position. -/
def ReadState.Room (s : ReadState) (k : ℕ) : Prop :=
  ∀ p ∈ s.stopParsePos.head?, (s.is.pos : ℤ) + k ≤ p

def Reads {α : Type} (n : ℕ) (r : ReadM α) (bs : List UInt8) (a : α) : Prop :=
  ∀ s tail, s.is.good = true → s.is.rest = bs ++ tail → s.Room bs.length →
    s.stopParsePos.length + n ≤ maxParseStackDepth → r.run s = some (a, s.advance bs.length)

/-- The innermost stop position is behind `bs` and `extra`. -/
def ReadsUpTo {α : Type} (n : ℕ) (r : ReadM α) (bs extra : List UInt8) (a : α) : Prop :=
  ∀ s tail, s.is.good = true → s.is.rest = bs ++ (extra ++ tail) →
    s.stopParsePos.head? = some ((s.is.pos : ℤ) + (bs ++ extra).length) →
    s.stopParsePos.length + n ≤ maxParseStackDepth → r.run s = some (a, s.advance bs.length)

section Rules

variable {α β : Type} {n : ℕ} {r : ReadM α} {k : α → ReadM β} {bs cs tail : List UInt8} {a : α}
  {b : β} {s : ReadState}

theorem ReadState.advance_advance (s : ReadState) (i j : ℕ) :
    (s.advance i).advance j = s.advance (i + j) := by
  simp only [ReadState.advance, IStream.advance_advance]

theorem ReadState.Room.left {i j : ℕ} (h : s.Room (i + j)) : s.Room i := by
  intro p hp
  have := h p hp
  omega

theorem ReadState.Room.right {i j : ℕ} (h : s.Room (i + j)) (hi : i ≤ s.is.rest.length) :
    (s.advance i).Room j := by
  intro p hp
  have hle := h p hp
  have hpos : (s.advance i).is.pos = s.is.pos + i := IStream.pos_advance hi
  rw [hpos]
  omega

/-- Two readers one after the other consume the bytes of both. -/
theorem Reads.bind (hr : Reads n r bs a) (hk : Reads n (k a) cs b) :
    Reads n (r >>= k) (bs ++ cs) b := by
  intro s tail hg hrest hroom hstack
  rw [List.append_assoc] at hrest
  rw [List.length_append] at hroom
  have hle : bs.length ≤ s.is.rest.length := by
    rw [hrest, List.length_append]
    omega
  have hfirst := hr s (cs ++ tail) hg hrest hroom.left hstack
  have hsecond := hk (s.advance bs.length) tail hg (IStream.rest_advance_of_prefix hrest)
    (hroom.right hle) hstack
  rw [StateT.run_bind, hfirst]
  rw [List.length_append, ← ReadState.advance_advance]
  exact hsecond

theorem reads_pure (a : α) : Reads n (pure a) [] a := by
  intro s tail _ _ _ _
  simp [ReadState.advance]

theorem Reads.map {f : α → β} (hr : Reads n r bs a) :
    Reads n (do return f (← r)) bs (f a) := by
  have h : Reads n (do return f (← r)) (bs ++ []) (f a) := hr.bind (reads_pure (f a))
  rw [List.append_nil] at h
  exact h

theorem Reads.upTo {extra : List UInt8} (hr : Reads n r bs a) : ReadsUpTo n r bs extra a := by
  intro s tail hg hrest hstop hstack
  refine hr s (extra ++ tail) hg hrest ?_ hstack
  intro p hp
  obtain rfl := Option.some.inj (hstop.symm.trans hp)
  simp only [List.length_append]
  omega

theorem Reads.bindUpTo {extra : List UInt8} (hr : Reads n r bs a)
    (hk : ReadsUpTo n (k a) cs extra b) : ReadsUpTo n (r >>= k) (bs ++ cs) extra b := by
  intro s tail hg hrest hstop hstack
  rw [List.append_assoc] at hrest
  have hle : bs.length ≤ s.is.rest.length := by
    rw [hrest, List.length_append]
    omega
  have hpos : (s.advance bs.length).is.pos = s.is.pos + bs.length := IStream.pos_advance hle
  have hroom : s.Room bs.length := by
    intro p hp
    obtain rfl := Option.some.inj (hstop.symm.trans hp)
    simp only [List.length_append]
    omega
  have hfirst := hr s (cs ++ (extra ++ tail)) hg hrest hroom hstack
  have hstop' : (s.advance bs.length).stopParsePos.head? =
      some (((s.advance bs.length).is.pos : ℤ) + (cs ++ extra).length) := by
    refine hstop.trans (congrArg some ?_)
    rw [hpos]
    simp only [List.length_append]
    omega
  have hsecond := hk (s.advance bs.length) tail hg (IStream.rest_advance_of_prefix hrest) hstop'
    hstack
  rw [StateT.run_bind, hfirst, List.length_append, ← ReadState.advance_advance]
  exact hsecond

theorem ReadsUpTo.map {extra : List UInt8} {f : α → β} (hr : ReadsUpTo n r bs extra a) :
    ReadsUpTo n (do return f (← r)) bs extra (f a) := by
  intro s tail hg hrest hstop hstack
  rw [StateT.run_bind, hr s tail hg hrest hstop hstack]
  rfl

/-- A reader that runs without a check of its own. -/
theorem Reads.bind_nil {γ : Type} {q : ReadM γ} {c : γ} {k : γ → ReadM β}
    (hq : ∀ s, s.is.good = true → q.run s = some (c, s)) (hk : Reads n (k c) bs b) :
    Reads n (q >>= k) bs b := by
  intro s tail hg hrest hroom hstack
  rw [StateT.run_bind, hq s hg]
  exact hk s tail hg hrest hroom hstack

theorem run_tellg (hg : s.is.good = true) : tellg.run s = some (↑s.is.pos, s) := by
  show some ((s.is.tellg).1, { s with is := (s.is.tellg).2 }) = _
  rw [IStream.tellg_of_good hg]

/-- There is something to read, so reading does not stop. -/
theorem run_checkStopParse (hg : s.is.good = true) (hroom : s.Room 1) :
    checkStopParse.run s = some (false, s) := by
  have heof : s.is.eofbit = false := (IStream.good_iff.mp hg).1
  unfold checkStopParse
  rw [StateT.run_bind, StateT.run_get]
  cases hstack : s.stopParsePos with
  | nil => simp [heof, hstack]
  | cons p stack =>
    have hle : (s.is.pos : ℤ) + 1 ≤ p := hroom p (by simp [hstack])
    have hlt : ¬ p ≤ (s.is.pos : ℤ) := by
      omega
    simp [heof, hstack, run_tellg hg, hlt]

theorem run_checkStopParse_of_stopped (hg : s.is.good = true) {p : ℤ}
    (hp : s.stopParsePos.head? = some p) (hle : p ≤ s.is.pos) :
    checkStopParse.run s = some (true, s) := by
  have heof : s.is.eofbit = false := (IStream.good_iff.mp hg).1
  unfold checkStopParse
  rw [StateT.run_bind, StateT.run_get]
  cases hstack : s.stopParsePos with
  | nil => simp [hstack] at hp
  | cons q stack =>
    obtain rfl : q = p := by
      simpa [hstack] using hp
    simp [heof, hstack, run_tellg hg, hle]

/-- At the stop position the target stays as it is. -/
theorem readsUpTo_of_stopped {r : ReadM α} {old : α} :
    ReadsUpTo n (do if ← checkStopParse then return old else r) [] [] old := by
  intro s tail hg _ hstop _
  have hle : (s.is.pos : ℤ) + (([] : List UInt8) ++ []).length ≤ s.is.pos := by
    simp
  rw [StateT.run_bind, run_checkStopParse_of_stopped hg hstop hle]
  simp [ReadState.advance]

theorem Reads.unlessStopped {r : ReadM α} {old : α} (hr : Reads n r bs a) (hne : bs ≠ []) :
    Reads n (do if ← checkStopParse then return old else r) bs a := by
  intro s tail hg hrest hroom hstack
  have hroom₁ : s.Room 1 := by
    obtain ⟨b, bs, rfl⟩ := List.exists_cons_of_ne_nil hne
    rw [List.length_cons, Nat.add_comm] at hroom
    exact hroom.left
  rw [StateT.run_bind, run_checkStopParse hg hroom₁]
  exact hr s tail hg hrest hroom hstack

theorem reads_internal {size : ℕ} {old : List UInt8} (hpos : 0 < size) (hlen : bs.length = size) :
    Reads n (readInternal old size) bs bs := by
  subst hlen
  refine Reads.unlessStopped ?_ (List.ne_nil_of_length_pos hpos)
  intro s tail hg hrest _ _
  have hread : s.is.read bs.length = (bs, s.is.advance bs.length) := IStream.read_of_rest hg hrest
  show some (overlay bs.length old (s.is.read bs.length).1,
    { s with is := (s.is.read bs.length).2 }) = _
  rw [hread]
  simp [overlay, ReadState.advance]

theorem reads_type (t : TypeTag) : Reads n (readType t) [t.code] true := by
  intro s tail hg hrest hroom hstack
  have hpeek : s.is.peek = (some t.code, s.is) := IStream.peek_of_rest hg hrest
  have hbyte : (readInternal [0] 1).run s = some ([t.code], s.advance 1) :=
    reads_internal Nat.one_pos rfl s tail hg hrest hroom hstack
  have honStream : (onStream IStream.peek).run s = some (some t.code, s) := by
    show some ((s.is.peek).1, { s with is := (s.is.peek).2 }) = _
    rw [hpeek]
  unfold readType
  rw [StateT.run_bind, honStream]
  simp [hbyte]

theorem Reads.afterType {t : TypeTag} {k : Bool → ReadM β} (hk : Reads n (k true) bs b) :
    Reads n (readType t >>= k) (t.code :: bs) b := by
  have h : Reads n (readType t >>= k) ([t.code] ++ bs) b := (reads_type t).bind hk
  exact h

theorem reads_literal {size : ℕ} {old : List UInt8} (hpos : 0 < size) (hlen : bs.length = size) :
    Reads n (readLiteral old size false) bs bs := by
  refine Reads.unlessStopped (reads_internal hpos hlen) ?_
  exact List.ne_nil_of_length_pos (hlen ▸ hpos)

theorem reads_tagged {size : ℕ} {old : List UInt8} (hpos : 0 < size) (hlen : bs.length = size) :
    Reads n (readLiteral old size true) (TypeTag.literal.code :: bs) bs := by
  refine Reads.unlessStopped ?_ (List.cons_ne_nil _ _)
  exact (reads_internal hpos hlen).afterType

theorem reads_size {m : ℕ} (h : m < 65536) : Reads n readSize (u16 m) m := by
  have hread : Reads n (readLiteral (u16 0) 2 false) (u16 m) (u16 m) :=
    reads_literal Nat.two_pos (length_u16 m)
  have hmap := hread.map (f := ofU16)
  rw [ofU16_u16 h] at hmap
  exact hmap

theorem run_checkStream_of_goodR (hg : s.is.good = true) :
    (checkStream goodR failRead).run s = some (true, s) := by
  simp [checkStream, goodR, hg]

theorem reads_string {old : List UInt8} (hlen : bs.length ≤ maxStringSize) :
    Reads n (readString old) (TypeTag.string.code :: (u16 bs.length ++ bs)) bs := by
  have h65536 : bs.length < 65536 := hlen.trans_lt (by decide)
  refine Reads.unlessStopped ?_ (List.cons_ne_nil _ _)
  refine Reads.afterType ?_
  refine (reads_size h65536).bind ?_
  refine Reads.bind_nil (fun s hg => run_checkStream_of_goodR hg) ?_
  rw [if_pos rfl, checkSlength_of_le hlen]
  cases bs with
  | nil => exact reads_pure []
  | cons b bs => exact reads_internal (Nat.succ_pos _) rfl

theorem reads_chars {maxLen : ℕ} {old : List UInt8} (hlen : bs.length ≤ maxStringSize)
    (hmax : bs.length ≤ maxLen) :
    Reads n (readChars old maxLen) (TypeTag.string.code :: (u16 bs.length ++ bs))
      (bs ++ old.drop bs.length) := by
  have h65536 : bs.length < 65536 := hlen.trans_lt (by decide)
  refine Reads.unlessStopped ?_ (List.cons_ne_nil _ _)
  refine Reads.afterType ?_
  refine (reads_size h65536).bind ?_
  refine Reads.bind_nil (fun s hg => run_checkStream_of_goodR hg) ?_
  rw [if_pos rfl, checkSlength_of_le hlen]
  cases bs with
  | nil => exact reads_pure old
  | cons b bs =>
    have hne : decide ((b :: bs).length ≠ 0) = true := rfl
    simp only [hne, pure_bind, if_true, if_neg (not_lt.mpr hmax)]
    exact (reads_internal (Nat.succ_pos _) rfl).map

/-- The elements of a container, each of which takes the container one step on. -/
theorem reads_loop {E : α → List UInt8 → Prop} {step : β → α → β} {body : β → ReadM β}
    {l : List α} (hseq : Sequence E l bs)
    (hbody : ∀ container, ∀ a ∈ l, ∀ bs, E a bs → Reads n (body container) bs (step container a))
    (container : β) : Reads n (readLoop body l.length container) bs (l.foldl step container) := by
  induction hseq generalizing container with
  | nil => exact reads_pure container
  | cons ha _ ih =>
    refine (hbody container _ (List.mem_cons_self ..) _ ha).bind ?_
    exact ih (fun c a ha' => hbody c a (List.mem_cons_of_mem _ ha')) _

theorem reads_wstring {old : List UInt32} {str : List UInt32} (hlen : str.length ≤ maxStringSize) :
    Reads n (readWString old)
      (TypeTag.wstring.code :: (u16 str.length ++ str.flatMap wideBytes))
      (str.map fun c => wideChar (wideBytes c)) := by
  have h65536 : str.length < 65536 := hlen.trans_lt (by decide)
  have hseq (l : List UInt32) :
      Sequence (fun c bs => bs = wideBytes c) l (l.flatMap wideBytes) := by
    induction l with
    | nil => exact .nil
    | cons c l ih => exact .cons rfl ih
  -- each round of the loop appends one character
  have hfold (l : List UInt32) (container : List UInt32) :
      l.foldl (fun s c => s ++ [wideChar (wideBytes c)]) container =
        container ++ l.map fun c => wideChar (wideBytes c) := by
    induction l generalizing container with
    | nil => simp
    | cons c l ih => simp [ih]
  have hloop : Reads n (readLoop (fun s => do return s ++ [wideChar (← readInternal [0, 0] 2)])
      str.length []) (str.flatMap wideBytes) (str.map fun c => wideChar (wideBytes c)) := by
    rw [← List.nil_append (str.map _), ← hfold]
    refine reads_loop (hseq str) ?_ []
    rintro container c - _ rfl
    exact (reads_internal Nat.two_pos (length_wideBytes c)).map
  refine Reads.unlessStopped ?_ (List.cons_ne_nil _ _)
  refine Reads.afterType ?_
  refine (reads_size h65536).bind ?_
  refine Reads.bind_nil (fun s hg => run_checkStream_of_goodR hg) ?_
  rw [if_pos rfl, checkSlength_of_le hlen]
  cases str with
  | nil => exact reads_pure []
  | cons c str => exact hloop

theorem reads_container {tag : TypeTag} {E : α → List UInt8 → Prop} {old empty : β}
    {step : β → α → β} {body : β → ReadM β} {l : List α} (h : Counted tag E l bs)
    (hbody : ∀ container, ∀ a ∈ l, ∀ bs, E a bs → Reads n (body container) bs (step container a)) :
    Reads n (readContainer tag old empty body) bs (l.foldl step empty) := by
  cases h with
  | mk hlen hseq =>
    have h65536 : l.length < 65536 := hlen.trans_lt (by decide)
    refine Reads.unlessStopped ?_ (List.cons_ne_nil _ _)
    refine Reads.afterType ?_
    refine (reads_size h65536).bind ?_
    refine Reads.bind_nil (fun s hg => run_checkStream_of_goodR hg) ?_
    rw [if_pos rfl, checkContainerSize_of_le hlen]
    exact reads_loop hseq hbody empty

theorem run_seek (f : IStream → IStream) : (seek f).run s = some ((), { s with is := f s.is }) :=
  rfl

theorem run_checkBounds {targetStopPos : ℤ} (hg : s.is.good = true)
    (hend : targetStopPos ≤ s.is.buf.length)
    (hroom : ∀ p ∈ s.stopParsePos.head?, targetStopPos ≤ p) :
    (checkBounds targetStopPos).run s = some (true, s) := by
  have hlast : tellg.run { s with is := s.is.seekgEnd } =
      some ((s.is.buf.length : ℤ), { s with is := s.is.seekgEnd }) := by
    show some ((s.is.seekgEnd.tellg).1, { s with is := (s.is.seekgEnd.tellg).2 }) = _
    rw [IStream.tellg_seekgEnd hg]
  unfold checkBounds
  simp only [StateT.run_bind, run_tellg hg, Option.bind_eq_bind, Option.bind_some, run_seek, hlast,
    IStream.seekg_back hg, if_neg (not_lt.mpr hend), StateT.run_get, Option.pure_def]
  have hs (stack : List ℤ) (h : s.stopParsePos = stack) :
      some (true, ReadState.mk s.is stack s.lastError) = some (true, s) := by
    rw [← h]
  cases hstack : s.stopParsePos with
  | nil => exact hs [] hstack
  | cons p stack =>
    have hp : targetStopPos ≤ p := hroom p (by simp [hstack])
    simp only [if_neg (not_lt.mpr hp)]
    exact hs (p :: stack) hstack

/-- What is left of the object is skipped. -/
theorem run_skipExtra {startPos : ℤ} {size m : ℕ} (hg : s.is.good = true) (hsize : size < 65536)
    (hstart : startPos ≤ s.is.pos) (hpos : (s.is.pos : ℤ) + m = startPos + size)
    (hm : m ≤ s.is.rest.length) : (skipExtra startPos size).run s = some ((), s.advance m) := by
  have hrcvd : (((s.is.pos : ℤ) - startPos) % 65536).toNat = size - m := by
    omega
  have hle : m ≤ size := by
    omega
  unfold skipExtra
  rcases Nat.eq_zero_or_pos m with rfl | hlt
  · simp [goodR, hg, run_tellg hg, hrcvd, ReadState.advance]
  · have hlt' : size - m < size := by
      omega
    have hskip : size - (size - m) = m := by
      omega
    simp only [goodR, StateT.run_bind, StateT.run_get, StateT.run_pure, Option.pure_def,
      Option.bind_eq_bind, Option.bind_some, hg, if_true, run_tellg hg, hrcvd, hlt', hskip,
      run_seek, IStream.seekgCur_of_le hg hm]
    rfl

theorem run_pushStopParsePos {p : ℤ} (h : s.stopParsePos.length < maxParseStackDepth) :
    (pushStopParsePos p).run s = some ((), s.push p) := by
  unfold pushStopParsePos
  rw [StateT.run_bind, StateT.run_get]
  simp [h]

theorem run_popStopParsePos {p : ℤ} {stack : List ℤ} (h : s.stopParsePos = p :: stack) :
    popStopParsePos.run s = some ((), { s with stopParsePos := stack }) := by
  unfold popStopParsePos
  rw [StateT.run_bind, StateT.run_get]
  simp [h]

/-- An object ahead is read up to its members: its size field is consistent with
the stream and with the object around it. -/
theorem run_readUser {old : α} {members : ReadM α} (hlen : 2 + bs.length < 65536)
    (hg : s.is.good = true)
    (hrest : s.is.rest = TypeTag.userDefined.code :: (u16 (2 + bs.length) ++ (bs ++ tail)))
    (hroom : s.Room (3 + bs.length)) (hstack : s.stopParsePos.length ≤ maxParseStackDepth) :
    (readUser old members).run s =
      (do pushStopParsePos (((s.is.pos + 1 : ℕ) : ℤ) + (2 + bs.length : ℕ))
          let t ← members
          popStopParsePos
          skipExtra (s.is.pos + 1 : ℕ) (2 + bs.length)
          return t : ReadM α).run (s.advance 3) := by
  have hbuf : s.is.buf.length - s.is.pos = 3 + bs.length + tail.length := by
    rw [← IStream.length_rest, hrest]
    simp only [List.length_cons, List.length_append, length_u16]
    omega
  have hroom₁ : s.Room 1 := by
    have h : s.Room (1 + (2 + bs.length)) := by
      rwa [show 1 + (2 + bs.length) = 3 + bs.length by omega]
    exact h.left
  -- the steps in front of the members, in the order of the code
  have hstop := run_checkStopParse hg hroom₁
  have htype : (readType .userDefined).run s = some (true, s.advance 1) :=
    reads_type (n := 0) .userDefined s _ hg hrest hroom₁ hstack
  have hrest₁ : (s.advance 1).is.rest = u16 (2 + bs.length) ++ (bs ++ tail) := by
    show (s.is.advance 1).rest = _
    rw [IStream.rest_advance, hrest]
    rfl
  have hpos₁ : (s.advance 1).is.pos = s.is.pos + 1 := IStream.pos_advance (by
    rw [IStream.length_rest]
    omega)
  have hroom₂ : (s.advance 1).Room 2 := by
    intro p hp
    have := hroom p hp
    rw [hpos₁]
    omega
  have hsize : readSize.run (s.advance 1) = some (2 + bs.length, s.advance 3) := by
    rw [show s.advance 3 = (s.advance 1).advance 2 from (s.advance_advance 1 2).symm]
    exact reads_size (n := 0) hlen _ _ hg hrest₁ hroom₂ hstack
  have hstart : (((s.is.pos + 1 : ℕ)) : ℤ) ≠ -1 := by
    omega
  have hbounds : (checkBounds (((s.is.pos + 1 : ℕ) : ℤ) + (2 + bs.length : ℕ))).run (s.advance 3) =
      some (true, s.advance 3) := by
    refine run_checkBounds hg ?_ ?_
    · show _ ≤ (s.is.buf.length : ℤ)
      omega
    · intro p hp
      have := hroom p hp
      omega
  have htell : tellg.run (s.advance 1) = some (((s.is.pos + 1 : ℕ) : ℤ), s.advance 1) := by
    rw [← hpos₁]
    exact run_tellg hg
  unfold readUser
  simp only [StateT.run_bind, hstop, Option.bind_eq_bind, Option.bind_some, Bool.false_eq_true,
    if_false, htype, if_true, htell, hstart, hsize, hbounds]

/-- The members are read under a stop position at the end of the object, and
what they leave of it is skipped. -/
theorem reads_user {old : α} {members : ReadM α} {extra : List UInt8}
    (hm : ReadsUpTo n members bs extra a) (hlen : 2 + (bs ++ extra).length < 65536) :
    Reads (n + 1) (readUser old members)
      (TypeTag.userDefined.code :: (u16 (2 + (bs ++ extra).length) ++ (bs ++ extra))) a := by
  intro s tail hg hrest hroom hstack
  rw [List.cons_append, List.append_assoc] at hrest
  have htotal : (TypeTag.userDefined.code ::
      (u16 (2 + (bs ++ extra).length) ++ (bs ++ extra))).length = 3 + (bs ++ extra).length := by
    rw [List.length_cons, List.length_append, length_u16]
    omega
  have hboth : (bs ++ extra).length = bs.length + extra.length := List.length_append
  rw [htotal] at hroom ⊢
  rw [run_readUser hlen hg hrest hroom (by omega)]
  have hbuf : s.is.buf.length - s.is.pos = 3 + (bs ++ extra).length + tail.length := by
    rw [← IStream.length_rest, hrest]
    simp only [List.length_cons, List.length_append, length_u16]
    omega
  have hslot : (s.advance 3).stopParsePos.length < maxParseStackDepth := by
    show s.stopParsePos.length < _
    omega
  have hpush := run_pushStopParsePos
    (p := ((s.is.pos + 1 : ℕ) : ℤ) + (2 + (bs ++ extra).length : ℕ)) hslot
  have hpos : (s.advance 3).is.pos = s.is.pos + 3 := IStream.pos_advance (by
    rw [IStream.length_rest]
    omega)
  have hafter : (s.advance 3).is.rest = bs ++ (extra ++ tail) := by
    show (s.is.advance 3).rest = _
    rw [IStream.rest_advance, hrest, List.append_assoc]
    rfl
  -- `s₂` is the state in which the members are read
  obtain ⟨s₂, hs₂⟩ : ∃ s₂, s₂ = (s.advance 3).push
    (((s.is.pos + 1 : ℕ) : ℤ) + (2 + (bs ++ extra).length : ℕ)) := ⟨_, rfl⟩
  have hmembers : members.run s₂ = some (a, s₂.advance bs.length) := by
    subst hs₂
    refine hm _ tail hg hafter ?_ ?_
    · refine congrArg some ?_
      show _ = ((s.advance 3).is.pos : ℤ) + (bs ++ extra).length
      rw [hpos]
      omega
    · show s.stopParsePos.length + 1 + n ≤ maxParseStackDepth
      omega
  have hpop : popStopParsePos.run (s₂.advance bs.length) =
      some ((), s.advance (3 + bs.length)) := by
    subst hs₂
    rw [← ReadState.advance_advance]
    exact run_popStopParsePos rfl
  have hlast : (s.advance (3 + bs.length)).is.pos = s.is.pos + (3 + bs.length) :=
    IStream.pos_advance (by
      rw [IStream.length_rest]
      omega)
  have hskip : (skipExtra (s.is.pos + 1 : ℕ) (2 + (bs ++ extra).length)).run
      (s.advance (3 + bs.length)) =
        some ((), (s.advance (3 + bs.length)).advance extra.length) := by
    refine run_skipExtra hg hlen ?_ ?_ ?_
    · omega
    · omega
    · rw [IStream.length_rest, hlast]
      show _ ≤ s.is.buf.length - _
      omega
  have hend : (s.advance (3 + bs.length)).advance extra.length =
      s.advance (3 + (bs ++ extra).length) := by
    rw [ReadState.advance_advance, hboth, Nat.add_assoc]
  rw [← hs₂] at hpush
  simp only [StateT.run_bind, Option.bind_eq_bind, Option.bind_some, hpush, hmembers, hpop, hskip,
    hend, StateT.run_pure, Option.pure_def]

end Rules

section Order

variable {β : Type} {less : Less}

/-- A key behind all keys of a set goes to its end. -/
theorem insertItem_of_forall {a : Val} {l : List Val} (h : ∀ b ∈ l, less b a = true) :
    insertItem less a l = l ++ [a] := by
  induction l with
  | nil => rfl
  | cons b l ih =>
    unfold insertItem
    rw [if_pos (h b (List.mem_cons_self ..)), ih fun c hc => h c (List.mem_cons_of_mem _ hc)]
    rfl

theorem assignEntry_of_forall {k : Val} {v : β} {l : List (Val × β)}
    (h : ∀ e ∈ l, less e.1 k = true) : assignEntry less k v l = l ++ [(k, v)] := by
  induction l with
  | nil => rfl
  | cons e l ih =>
    unfold assignEntry
    rw [if_pos (h e (List.mem_cons_self ..)), ih fun c hc => h c (List.mem_cons_of_mem _ hc)]
    rfl

/-- Elements that are put in one by one, each behind the ones before. -/
theorem foldl_of_pairwise {α : Type} {R : α → α → Prop} {step : List α → α → List α}
    (hstep : ∀ l a, (∀ b ∈ l, R b a) → step l a = l ++ [a]) {l : List α} (hl : l.Pairwise R) :
    l.foldl step [] = l := by
  induction l using List.reverseRecOn with
  | nil => rfl
  | append_singleton l a ih =>
    obtain ⟨hpre, -, hlast⟩ := List.pairwise_append.mp hl
    rw [List.foldl_append, ih hpre]
    exact hstep l a fun b hb => hlast b hb a (List.mem_singleton_self a)

theorem foldl_pushBack {α : Type} (l : List α) :
    l.foldl (fun container a => container ++ [a]) [] = l :=
  foldl_of_pairwise (R := fun _ _ => True) (fun _ _ _ => rfl)
    (List.pairwise_of_forall fun _ _ => trivial)

theorem foldl_insertItem {l : List Val} (hl : l.Pairwise fun a b => less a b = true) :
    l.foldl (fun container a => insertItem less a container) [] = l :=
  foldl_of_pairwise (R := fun a b => less a b = true) (fun _ _ h => insertItem_of_forall h) hl

theorem foldl_assignEntry {l : List (Val × β)} (hl : l.Pairwise fun a b => less a.1 b.1 = true) :
    l.foldl (fun container e => assignEntry less e.1 e.2 container) [] = l :=
  foldl_of_pairwise (R := fun a b => less a.1 b.1 = true)
    (fun _ _ h => assignEntry_of_forall h) hl

end Order

/-- A vector or a list: every element goes to the end. -/
theorem reads_pushBack {α γ : Type} {n : ℕ} {tag : TypeTag} {E : α → List UInt8 → Prop}
    {old : List γ} {r : ReadM γ} {g : α → γ} {l : List α} {bs : List UInt8}
    (h : Counted tag E l bs) (hr : ∀ a bs, E a bs → Reads n r bs (g a)) :
    Reads n (readContainer tag old [] fun container => do return container ++ [← r]) bs
      (l.map g) := by
  rw [← foldl_pushBack (l.map g), List.foldl_map]
  exact reads_container h fun container a _ bs ha => (hr a bs ha).map

end Serialize

end AsyncSqlite
