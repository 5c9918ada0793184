import AsyncSqlite.Serialize.Read

/-!
# AsyncSqlite.Serialize.Received — what a reader makes of the wire format

The classes of the reader may be other versions than those of the writer: of the
fields of a class one side knows a prefix. `received` is what the target of the
reader holds afterwards, `reads_object` says that the readers give it: members
that were not sent are left as they are, and what is behind the last known one
is skipped. Between equal versions the values of `Field.Typed` come out as they
went in (`received_self`).
-/

namespace AsyncSqlite

universe u

namespace Serialize

/-- Of the fields of a class one side knows a prefix. -/
def Classes.Versions {C : Type u} (cls cls' : Classes C) : Prop :=
  ∀ c, cls'.fields c <+: cls.fields c ∨ cls.fields c <+: cls'.fields c

/-! ## What arrives -/

section Received

variable {C : Type u} (cls : Classes C) (keep : Field C → Val → Val) (obj : C → Val → Val → Val)

/-- An element is read into a variable of its own. -/
def receivedElem : Elem C → Val → Val
  | .literal _, v => v
  | .object c, v => obj c (cls.fresh c) v

def receivedPointer (c : C) (p : Option Val) : Option Val := p.map (obj c (cls.fresh c))

/-- What a target that held `old` makes of `v`: the text of an array goes over its
first bytes, the elements of a set or a map are inserted one by one. -/
def receivedField : Field C → Val → Val → Val
  | .literal _, _, v => v
  | .string, _, v => v
  | .wstring, _, v => .wstring (v.wide.map fun c => wideChar (wideBytes c))
  | .chars _, old, v =>
    .chars (v.array.take (textSize v.array) ++ old.array.drop (textSize v.array))
  | .object c, old, v => obj c old v
  | .vectorBool, _, v => v
  | .vector e, _, v => .items (v.values.map (receivedElem cls obj e))
  | .vectorPtr c, _, v => .pointers (v.refs.map (receivedPointer cls obj c))
  | .list e, _, v => .items (v.values.map (receivedElem cls obj e))
  | .listPtr c, _, v => .pointers (v.refs.map (receivedPointer cls obj c))
  | .set e less, _, v =>
    .items (v.values.foldl (fun l a => insertItem less (receivedElem cls obj e a) l) [])
  | .setPtr c same, _, v =>
    .pointers (v.refs.foldl (fun l p => insertRef same (receivedPointer cls obj c p) l) [])
  | .map k e less, _, v =>
    .entries (v.pairs.foldl (fun l p =>
      assignEntry less (receivedElem cls obj k p.1) (receivedElem cls obj e p.2) l) [])
  | .mapPtr k c less, _, v =>
    .pointerEntries (v.refPairs.foldl (fun l p =>
      assignEntry less (receivedElem cls obj k p.1) (receivedPointer cls obj c p.2) l) [])

/-- The members of the reader's object: `keep` says what becomes of those that
were not sent. -/
def receivedMembers : List (Field C) → List Val → List Val → List Val
  | [], _, _ => []
  | f :: fs, olds, [] =>
    keep f (olds.headD (.object [])) :: receivedMembers fs olds.tail []
  | f :: fs, olds, v :: vs =>
    receivedField cls obj f (olds.headD (.object [])) v :: receivedMembers fs olds.tail vs

end Received

/-- What a reader's object that held `old` makes of the object `v`, which nests
at most `n` deep. -/
def received {C : Type u} (cls : Classes C) (keep : Field C → Val → Val) : ℕ → C → Val → Val → Val
  | 0, _, old, _ => old
  | n + 1, c, old, v =>
    .object (receivedMembers cls keep (received cls keep n) (cls.fields c) old.members v.members)

/-- What is left in a target that is not read: what it holds. -/
def Field.keep {C : Type u} : Field C → Val → Val
  | .literal _, old => .literal old.bytes
  | .string, old => .string old.text
  | .wstring, old => .wstring old.wide
  | .chars _, old => .chars old.array
  | .object _, old => old
  | .vectorBool, old => .bools old.flags
  | .vector _, old => .items old.values
  | .vectorPtr _, old => .pointers old.refs
  | .list _, old => .items old.values
  | .listPtr _, old => .pointers old.refs
  | .set _ _, old => .items old.values
  | .setPtr _ _, old => .pointers old.refs
  | .map _ _ _, old => .entries old.pairs
  | .mapPtr _ _ _, old => .pointerEntries old.refPairs

/-! ## The readers give it -/

section Overloads

variable {C : Type u} {cls : Classes C} {obj : C → Val → ReadM Val}
  {E : C → Val → List UInt8 → Prop} {rcv : C → Val → Val → Val} {n : ℕ} {bs : List UInt8}

/-- A reader of the objects that `E` describes, into what `rcv` says. -/
structure ReadsObjects (n : ℕ) (obj : C → Val → ReadM Val) (E : C → Val → List UInt8 → Prop)
    (rcv : C → Val → Val → Val) : Prop where
  ne_nil : ∀ c v bs, E c v bs → bs ≠ []
  reads : ∀ c v bs old, E c v bs → Reads n (obj c old) bs (rcv c old v)

theorem ReadsObjects.readClass (hobj : ReadsObjects n obj E rcv) {c : C} {v old : Val}
    (h : E c v bs) : Reads n (readClass obj c old) bs (rcv c old v) :=
  (hobj.reads c v bs old h).unlessStopped (hobj.ne_nil c v bs h)

theorem ReadsObjects.readElem (hobj : ReadsObjects n obj E rcv) {e : Elem C} {v : Val}
    (h : Elem.Encodes E e v bs) : Reads n (readElem cls obj e) bs (receivedElem cls rcv e v) := by
  cases h with
  | literal hpos hlen => exact (reads_literal hpos hlen).map
  | object h => exact hobj.readClass h

theorem ReadsObjects.readPointer (hobj : ReadsObjects n obj E rcv) {c : C} {p : Option Val}
    {init : List UInt8} (h : Pointer (E c) p bs) :
    Reads n (readPointer cls obj init c) bs (receivedPointer cls rcv c p) := by
  cases h with
  | null =>
    have hflag : Reads n (readLiteral init 1 false) [0] [0] := reads_literal Nat.one_pos rfl
    exact hflag.bind (reads_pure none)
  | @object v bs h =>
    have hflag : Reads n (readLiteral init 1 false) [1] [1] := reads_literal Nat.one_pos rfl
    have hobject : Reads n (do return some (← obj c (cls.fresh c))) bs
        (some (rcv c (cls.fresh c) v)) := (hobj.reads c v bs _ h).map
    exact hflag.bind hobject

/-- Every overload reads the wire format of its type. -/
theorem ReadsObjects.readField (hobj : ReadsObjects n obj E rcv) {f : Field C} {v old : Val}
    (h : Field.Encodes E f v bs) :
    Reads n (readField cls obj f old) bs (receivedField cls rcv f old v) := by
  cases h with
  | literal hpos hlen => exact (reads_tagged hpos hlen).map
  | string hlen => exact (reads_string hlen).map
  | wstring hlen => exact (reads_wstring hlen).map
  | @chars maxLen array hn hzero hlen =>
    -- only the text in front of the terminator is sent
    have hle : textSize array ≤ maxLen := hn ▸ textSize_le hzero
    have htake : (array.take (textSize array)).length = textSize array :=
      List.length_take_of_le (textSize_le hzero)
    have hread : Reads n (readChars old.array maxLen) _ _ :=
      reads_chars (htake.le.trans hlen) (htake.le.trans hle)
    rw [htake] at hread
    exact hread.map
  | object h => exact hobj.readClass h
  | @vectorBool l bs h =>
    refine Reads.map ?_
    rw [← foldl_pushBack l]
    refine reads_container h ?_
    rintro container b - _ ⟨⟩
    have hflag : decide ([b.toUInt8] ≠ [(0 : UInt8)]) = b := by
      cases b <;> rfl
    have hread : Reads n (readLiteral (cls.indeterminate 1) 1 true)
        [TypeTag.literal.code, b.toUInt8] [b.toUInt8] := reads_tagged Nat.one_pos rfl
    have hmap := hread.map (f := fun t => container ++ [decide (t ≠ [(0 : UInt8)])])
    rw [hflag] at hmap
    exact hmap
  | vector h => exact (reads_pushBack h fun _ _ => hobj.readElem).map
  | vectorPtr h => exact (reads_pushBack h fun _ _ => hobj.readPointer).map
  | list h => exact (reads_pushBack h fun _ _ => hobj.readElem).map
  | listPtr h => exact (reads_pushBack h fun _ _ => hobj.readPointer).map
  | set _ h => exact (reads_container h fun _ _ _ _ hv => (hobj.readElem hv).map).map
  | setPtr _ h => exact (reads_container h fun _ _ _ _ hp => (hobj.readPointer hp).map).map
  | map _ h =>
    refine (reads_container h ?_).map
    rintro container _ - _ ⟨hk, hv⟩
    exact (hobj.readElem hk).bind (hobj.readElem hv).map
  | mapPtr _ h =>
    refine (reads_container h ?_).map
    rintro container _ - _ ⟨hk, hv⟩
    exact (hobj.readElem hk).bind (hobj.readPointer hv).map

theorem readsUpTo_keep (f : Field C) (old : Val) :
    ReadsUpTo n (readField cls obj f old) [] [] (f.keep old) := by
  cases f with
  | object c => exact readsUpTo_of_stopped
  | literal size => exact readsUpTo_of_stopped.map
  | string => exact readsUpTo_of_stopped.map
  | wstring => exact readsUpTo_of_stopped.map
  | chars maxLen => exact readsUpTo_of_stopped.map
  | vectorBool => exact readsUpTo_of_stopped.map
  | vector e => exact readsUpTo_of_stopped.map
  | vectorPtr c => exact readsUpTo_of_stopped.map
  | list e => exact readsUpTo_of_stopped.map
  | listPtr c => exact readsUpTo_of_stopped.map
  | set e less => exact readsUpTo_of_stopped.map
  | setPtr c same => exact readsUpTo_of_stopped.map
  | map k e less => exact readsUpTo_of_stopped.map
  | mapPtr k c less => exact readsUpTo_of_stopped.map

theorem readsUpTo_keepMembers (fs : List (Field C)) (olds : List Val) :
    ReadsUpTo n (readMembers cls obj fs olds) [] []
      (receivedMembers cls Field.keep rcv fs olds []) := by
  induction fs generalizing olds with
  | nil => exact (reads_pure []).upTo
  | cons f fs ih =>
    intro s tail hg hrest hstop hstack
    have hf : (readField cls obj f (olds.headD (.object []))).run s = some (_, s.advance 0) :=
      readsUpTo_keep f _ s tail hg hrest hstop hstack
    have hzero : s.advance 0 = s := by
      simp [ReadState.advance]
    rw [hzero] at hf
    unfold readMembers
    rw [StateT.run_bind, hf]
    exact (ih olds.tail).map s tail hg hrest hstop hstack

/-- The members are read as far as both sides know them. -/
theorem ReadsObjects.readMembers (hobj : ReadsObjects n obj E rcv) {fs fs' : List (Field C)}
    {vs : List Val} (h : Members (Field.Encodes E) fs vs bs) (hfs : fs' <+: fs ∨ fs <+: fs')
    (olds : List Val) : ∃ sent extra, bs = sent ++ extra ∧
      ReadsUpTo n (readMembers cls obj fs' olds) sent extra
        (receivedMembers cls Field.keep rcv fs' olds vs) := by
  induction h generalizing fs' olds with
  | nil => exact ⟨[], [], rfl, readsUpTo_keepMembers fs' olds⟩
  | @cons f fs v vs bs cs hf _ ih =>
    cases fs' with
    | nil => exact ⟨[], bs ++ cs, rfl, (reads_pure []).upTo⟩
    | cons f' fs' =>
      simp only [List.cons_prefix_cons] at hfs
      obtain ⟨rfl, hfs'⟩ : f' = f ∧ (fs' <+: fs ∨ fs <+: fs') := by
        rcases hfs with ⟨h, h'⟩ | ⟨h, h'⟩
        · exact ⟨h, Or.inl h'⟩
        · exact ⟨h.symm, Or.inr h'⟩
      obtain ⟨sent, extra, rfl, hread⟩ := ih hfs' olds.tail
      refine ⟨bs ++ sent, extra, (List.append_assoc _ _ _).symm, ?_⟩
      exact (hobj.readField hf).bindUpTo hread.map

/-- The arguments of a call are read one after the other. -/
theorem ReadsObjects.readArgs (hobj : ReadsObjects n obj E rcv) {fs : List (Field C)}
    {vs : List Val} (h : Members (Field.Encodes E) fs vs bs) (olds : List Val) :
    Reads n (Serialize.readMembers cls obj fs olds) bs
      (receivedMembers cls Field.keep rcv fs olds vs) := by
  induction h generalizing olds with
  | nil => exact reads_pure []
  | cons hf _ ih => exact (hobj.readField hf).bind (ih olds.tail).map

end Overloads

/-- By induction on how deep the object nests: its members are read by the
overloads, over the objects of the level below, with one slot of the stack less. -/
theorem reads_object {C : Type u} {cls cls' : Classes C} (hver : cls.Versions cls') {n m : ℕ}
    (hle : n ≤ m) :
    ReadsObjects n (readObject cls' m) (cls.Encodes n) (received cls' Field.keep n) := by
  refine ⟨fun _ _ _ => Classes.Encodes.ne_nil, ?_⟩
  induction n generalizing m with
  | zero =>
    intro c v bs old h
    exact h.elim
  | succ n ih =>
    intro c v bs old h
    obtain ⟨m, rfl⟩ : ∃ k, m = k + 1 := ⟨m - 1, by omega⟩
    obtain ⟨members, body, rfl, hm, hlen, rfl⟩ := h
    have hobj : ReadsObjects n (readObject cls' m) (cls.Encodes n) (received cls' Field.keep n) :=
      ⟨fun _ _ _ => Classes.Encodes.ne_nil, ih (Nat.le_of_succ_le_succ hle)⟩
    obtain ⟨sent, extra, rfl, hread⟩ := hobj.readMembers hm (hver c) old.members
    exact reads_user hread.map hlen

theorem reads_read {C : Type u} {cls cls' : Classes C} (hver : cls.Versions cls') {f : Field C}
    {v : Val} {bs : List UInt8} (h : Field.Encodes (cls.Encodes maxParseStackDepth) f v bs)
    (old : Val) : Reads maxParseStackDepth (read cls' f old) bs
      (receivedField cls' (received cls' Field.keep maxParseStackDepth) f old v) :=
  (reads_object hver (Nat.le_succ _)).readField h

/-! ## Between equal versions -/

theorem Classes.versions_self {C : Type u} (cls : Classes C) : cls.Versions cls :=
  fun _ => Or.inl (List.prefix_refl _)

section Self

variable {C : Type u} {cls : Classes C} {keep : Field C → Val → Val} {O : C → Val → Prop}
  {rcv : C → Val → Val → Val}

theorem receivedElem_self (hO : ∀ c old v, O c v → rcv c old v = v) {e : Elem C} {v : Val}
    (h : Elem.Typed O e v) : receivedElem cls rcv e v = v := by
  cases h with
  | literal _ _ => rfl
  | object h => exact hO _ _ _ h

theorem receivedPointer_self (hO : ∀ c old v, O c v → rcv c old v = v) {c : C} {p : Option Val}
    (h : ∀ v, p = some v → O c v) : receivedPointer cls rcv c p = p := by
  cases p with
  | none => rfl
  | some v => exact congrArg some (hO _ _ _ (h v rfl))

theorem map_eq_of_forall {α : Type} {g : α → α} {l : List α} (h : ∀ a ∈ l, g a = a) :
    l.map g = l :=
  (List.map_congr_left h).trans (List.map_id l)

/-- Elements that arrive as they were sent make the container that was sent. -/
theorem foldl_of_forall {α β : Type} {g : α → α} {step : β → α → β} {l : List α} {b : β}
    (h : ∀ a ∈ l, g a = a) : l.foldl (fun m a => step m (g a)) b = l.foldl step b := by
  rw [← List.foldl_map, map_eq_of_forall h]

theorem receivedField_self (hO : ∀ c old v, O c v → rcv c old v = v) {f : Field C} {old v : Val}
    (h : Field.Typed O f v) : receivedField cls rcv f old v = v := by
  cases h with
  | literal _ _ => rfl
  | string => rfl
  | object h => exact hO _ _ _ h
  | vectorBool => rfl
  | vector h =>
    exact congrArg Val.items (map_eq_of_forall fun a ha => receivedElem_self hO (h a ha))
  | list h =>
    exact congrArg Val.items (map_eq_of_forall fun a ha => receivedElem_self hO (h a ha))
  | vectorPtr h =>
    refine congrArg Val.pointers (map_eq_of_forall fun p hp => receivedPointer_self hO ?_)
    rintro v rfl
    exact h v hp
  | listPtr h =>
    refine congrArg Val.pointers (map_eq_of_forall fun p hp => receivedPointer_self hO ?_)
    rintro v rfl
    exact h v hp
  | set h hl =>
    refine congrArg Val.items ((foldl_of_forall fun a ha => ?_).trans (foldl_insertItem hl))
    exact receivedElem_self hO (h a ha)
  | @map k e less l h hl =>
    have hpair : ∀ p ∈ l, (receivedElem cls rcv k p.1, receivedElem cls rcv e p.2) = p :=
      fun p hp => Prod.ext (receivedElem_self hO (h p hp).1) (receivedElem_self hO (h p hp).2)
    exact congrArg Val.entries ((foldl_of_forall hpair).trans (foldl_assignEntry hl))
  | @mapPtr k c less l h hl =>
    have hpair : ∀ p ∈ l, (receivedElem cls rcv k p.1, receivedPointer cls rcv c p.2) = p :=
      fun p hp => Prod.ext (receivedElem_self hO (h p hp).1) (receivedPointer_self hO (h p hp).2)
    exact congrArg Val.pointerEntries ((foldl_of_forall hpair).trans (foldl_assignEntry hl))

theorem receivedMembers_self (hO : ∀ c old v, O c v → rcv c old v = v) {fs : List (Field C)}
    {vs : List Val} (h : List.Forall₂ (Field.Typed O) fs vs) (olds : List Val) :
    receivedMembers cls keep rcv fs olds vs = vs := by
  induction h generalizing olds with
  | nil => rfl
  | cons hf _ ih => rw [receivedMembers, receivedField_self hO hf, ih]

theorem received_self {n : ℕ} {c : C} {v : Val} (h : cls.Typed n c v) (old : Val) :
    received cls keep n c old v = v := by
  induction n generalizing c v old with
  | zero => exact h.elim
  | succ n ih =>
    obtain ⟨members, rfl, hm⟩ := h
    exact congrArg Val.object (receivedMembers_self (fun _ old _ h => ih h old) hm old.members)

end Self

end Serialize

end AsyncSqlite
