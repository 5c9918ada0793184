import AsyncSqlite.Serialize.RoundTrip

/-!
# AsyncSqlite.Serialize.Depth — how deep an object may nest

`write` takes objects of any depth. `read` keeps the end of every object that it
is in on a stack of `maxParseStackDepth` entries, and asserts that there is room
for one more. So what `write` accepted is read back without a fault just when its
objects nest no deeper than that (`reads_back_iff`).

`Faults n r bs` is the other outcome beside `Reads n r bs a`: with `n` entries of
the stack left, `r` fails its assertion somewhere in `bs`. What is on the wire is
an encoding of lower depth, or its reader faults, whatever the type
(`ReadsOrFaults.field`).
-/

namespace AsyncSqlite

universe u

namespace Serialize

/-! ## What is on the wire -/

section Wire

variable {α β : Type u} {R R' : α → List UInt8 → Prop} {l : List α} {bs : List UInt8}

theorem Sequence.imp (h : Sequence R l bs) (hR : ∀ a ∈ l, ∀ bs, R a bs → R' a bs) :
    Sequence R' l bs := by
  induction h with
  | nil => exact .nil
  | cons ha _ ih =>
    refine .cons (hR _ (List.mem_cons_self ..) _ ha) (ih ?_)
    exact fun a ha' => hR a (List.mem_cons_of_mem _ ha')

theorem Sequence.forall_mem (h : Sequence R l bs) : ∀ a ∈ l, ∃ bs, R a bs := by
  induction h with
  | nil =>
    intro a ha
    exact absurd ha List.not_mem_nil
  | cons ha _ ih =>
    intro b hb
    rcases List.mem_cons.mp hb with rfl | hb
    · exact ⟨_, ha⟩
    · exact ih b hb

theorem Counted.imp {tag : TypeTag} (h : Counted tag R l bs)
    (hR : ∀ a ∈ l, ∀ bs, R a bs → R' a bs) : Counted tag R' l bs := by
  obtain ⟨hlen, hseq⟩ := h
  exact .mk hlen (hseq.imp hR)

theorem Counted.forall_mem {tag : TypeTag} (h : Counted tag R l bs) : ∀ a ∈ l, ∃ bs, R a bs := by
  obtain ⟨-, hseq⟩ := h
  exact hseq.forall_mem

end Wire

section Values

variable {C : Type u} {O : C → Val → Prop} {E E' : C → Val → List UInt8 → Prop}
  {bs : List UInt8}

/-- Only values of its type are written. -/
theorem Elem.Encodes.typed (hE : ∀ c v bs, E c v bs → O c v) {e : Elem C} {v : Val}
    (h : Elem.Encodes E e v bs) : Elem.Typed O e v := by
  cases h with
  | literal hpos hlen => exact .literal hpos hlen
  | object h => exact .object (hE _ _ _ h)

theorem Pointer.typed (hE : ∀ c v bs, E c v bs → O c v) {c : C} {p : Option Val}
    (h : Pointer (E c) p bs) : ∀ v, p = some v → O c v := by
  rintro v rfl
  cases h with
  | object h => exact hE _ _ _ h

theorem Field.Encodes.valid (hE : ∀ c v bs, E c v bs → O c v) {f : Field C} {v : Val}
    (h : Field.Encodes E f v bs) : Field.Valid O f v := by
  have helem : ∀ {e : Elem C} {l : List Val} {tag bs}, Counted tag (Elem.Encodes E e) l bs →
      ∀ v ∈ l, Elem.Typed O e v := by
    intro e l tag bs h v hv
    obtain ⟨_, hv⟩ := h.forall_mem v hv
    exact hv.typed hE
  have hpointer : ∀ {c : C} {l : List (Option Val)} {tag bs}, Counted tag (Pointer (E c)) l bs →
      ∀ v, some v ∈ l → O c v := by
    intro c l tag bs h v hv
    obtain ⟨_, hv⟩ := h.forall_mem _ hv
    exact hv.typed hE v rfl
  cases h with
  | literal hpos hlen => exact .typed (.literal hpos hlen)
  | string _ => exact .typed .string
  | wstring _ => exact .wstring
  | chars hn hzero _ => exact .chars hn hzero
  | object h => exact .typed (.object (hE _ _ _ h))
  | vectorBool _ => exact .typed .vectorBool
  | vector h => exact .typed (.vector (helem h))
  | vectorPtr h => exact .typed (.vectorPtr (hpointer h))
  | list h => exact .typed (.list (helem h))
  | listPtr h => exact .typed (.listPtr (hpointer h))
  | set hs h => exact .typed (.set (helem h) hs)
  | setPtr hs h => exact .setPtr (hpointer h) hs
  | map hs h =>
    refine .typed (.map (fun p hp => ?_) hs)
    obtain ⟨_, ⟨hk, hv⟩⟩ := h.forall_mem p hp
    exact ⟨hk.typed hE, hv.typed hE⟩
  | mapPtr hs h =>
    refine .typed (.mapPtr (fun p hp => ?_) hs)
    obtain ⟨_, ⟨hk, hv⟩⟩ := h.forall_mem p hp
    exact ⟨hk.typed hE, hv.typed hE⟩

theorem Members.valid (hE : ∀ c v bs, E c v bs → O c v) {fs : List (Field C)} {vs : List Val}
    (h : Members (Field.Encodes E) fs vs bs) : List.Forall₂ (Field.Valid O) fs vs := by
  induction h with
  | nil => exact .nil
  | cons hf _ ih => exact .cons (hf.valid hE) ih

theorem Classes.Encodes.valid {cls : Classes C} {n : ℕ} {c : C} {v : Val}
    (h : cls.Encodes n c v bs) : cls.Valid n c v := by
  induction n generalizing c v bs with
  | zero => exact h.elim
  | succ n ih =>
    obtain ⟨members, body, rfl, hm, -, -⟩ := h
    exact ⟨members, rfl, hm.valid fun c v bs h => ih h⟩

/-- The encoding of a value whose objects are known to be of lower depth. -/
theorem Elem.Encodes.restrict (hE : ∀ c v bs, O c v → E c v bs → E' c v bs) {e : Elem C} {v : Val}
    (hv : Elem.Typed O e v) (h : Elem.Encodes E e v bs) : Elem.Encodes E' e v bs := by
  cases h with
  | literal hpos hlen => exact .literal hpos hlen
  | object h =>
    cases hv with
    | object hv => exact .object (hE _ _ _ hv h)

theorem Pointer.restrict (hE : ∀ c v bs, O c v → E c v bs → E' c v bs) {c : C} {p : Option Val}
    (hv : ∀ v, p = some v → O c v) (h : Pointer (E c) p bs) : Pointer (E' c) p bs := by
  cases h with
  | null => exact .null
  | object h => exact .object (hE _ _ _ (hv _ rfl) h)

theorem Field.Typed.restrict (hE : ∀ c v bs, O c v → E c v bs → E' c v bs) {f : Field C}
    {v : Val} (hv : Field.Typed O f v) (h : Field.Encodes E f v bs) : Field.Encodes E' f v bs := by
  have hpointer : ∀ {c : C} {l : List (Option Val)} {tag}, (∀ v, some v ∈ l → O c v) →
      Counted tag (Pointer (E c)) l bs → Counted tag (Pointer (E' c)) l bs := by
    intro c l tag hl h
    refine h.imp fun p hp _ => Pointer.restrict hE ?_
    rintro v rfl
    exact hl v hp
  cases hv with
  | literal hpos hlen =>
    cases h
    exact .literal hpos hlen
  | string =>
    cases h with
    | string hlen => exact .string hlen
  | object hv =>
    cases h with
    | object h => exact .object (hE _ _ _ hv h)
  | vectorBool =>
    cases h with
    | vectorBool h => exact .vectorBool h
  | vector hv =>
    cases h with
    | vector h => exact .vector (h.imp fun a ha _ => Elem.Encodes.restrict hE (hv a ha))
  | vectorPtr hv =>
    cases h with
    | vectorPtr h => exact .vectorPtr (hpointer hv h)
  | list hv =>
    cases h with
    | list h => exact .list (h.imp fun a ha _ => Elem.Encodes.restrict hE (hv a ha))
  | listPtr hv =>
    cases h with
    | listPtr h => exact .listPtr (hpointer hv h)
  | set hv hs =>
    cases h with
    | set _ h => exact .set hs (h.imp fun a ha _ => Elem.Encodes.restrict hE (hv a ha))
  | map hv hs =>
    cases h with
    | map _ h =>
      refine .map hs (h.imp ?_)
      rintro p hp _ ⟨hk, he⟩
      exact .mk (hk.restrict hE (hv _ hp).1) (he.restrict hE (hv _ hp).2)
  | mapPtr hv hs =>
    cases h with
    | mapPtr _ h =>
      refine .mapPtr hs (h.imp ?_)
      rintro p hp _ ⟨hk, he⟩
      exact .mk (hk.restrict hE (hv _ hp).1) (he.restrict hE (hv _ hp).2)

theorem Field.Valid.restrict (hE : ∀ c v bs, O c v → E c v bs → E' c v bs) {f : Field C}
    {v : Val} (hv : Field.Valid O f v) (h : Field.Encodes E f v bs) : Field.Encodes E' f v bs := by
  cases hv with
  | typed hv => exact hv.restrict hE h
  | wstring =>
    cases h with
    | wstring hlen => exact .wstring hlen
  | chars hn hzero =>
    cases h with
    | chars _ _ hlen => exact .chars hn hzero hlen
  | setPtr hv hs =>
    cases h with
    | setPtr _ h =>
      refine .setPtr hs (h.imp fun p hp _ => Pointer.restrict hE ?_)
      rintro v rfl
      exact hv v hp

theorem Members.restrict (hE : ∀ c v bs, O c v → E c v bs → E' c v bs) {fs : List (Field C)}
    {vs : List Val} (hv : List.Forall₂ (Field.Valid O) fs vs)
    (h : Members (Field.Encodes E) fs vs bs) : Members (Field.Encodes E') fs vs bs := by
  induction h with
  | nil => exact .nil
  | cons hf _ ih =>
    cases hv with
    | cons hv hvs => exact .cons (hv.restrict hE hf) (ih hvs)

theorem Classes.Encodes.restrict {cls : Classes C} {n m : ℕ} {c : C} {v : Val}
    (hv : cls.Valid n c v) (h : cls.Encodes m c v bs) : cls.Encodes n c v bs := by
  induction n generalizing m c v bs with
  | zero => exact hv.elim
  | succ n ih =>
    cases m with
    | zero => exact h.elim
    | succ m =>
      obtain ⟨members, body, rfl, hm, hlen, rfl⟩ := h
      obtain ⟨_, ⟨⟩, hvs⟩ := hv
      have hobj : ∀ c v bs, cls.Valid n c v → cls.Encodes m c v bs → cls.Encodes n c v bs :=
        fun c v bs => ih
      exact ⟨members, body, rfl, hm.restrict hobj hvs, hlen, rfl⟩

end Values

/-! ## A reader that fails its assertion -/

/-- With exactly `n` entries of the stack left, the assertion fails in `bs`. -/
def Faults {α : Type} (n : ℕ) (r : ReadM α) (bs : List UInt8) : Prop :=
  ∀ s tail, s.is.good = true → s.is.rest = bs ++ tail → s.Room bs.length →
    s.stopParsePos.length + n = maxParseStackDepth → r.run s = none

section Rules

variable {α β : Type} {n : ℕ} {r : ReadM α} {k : α → ReadM β} {bs cs : List UInt8} {a : α}

theorem Faults.bind (hr : Faults n r bs) : Faults n (r >>= k) (bs ++ cs) := by
  intro s tail hg hrest hroom hstack
  rw [List.append_assoc] at hrest
  rw [List.length_append] at hroom
  rw [StateT.run_bind, hr s (cs ++ tail) hg hrest hroom.left hstack]
  rfl

theorem Faults.map (hr : Faults n r bs) : Faults n (r >>= k) bs := by
  have h : Faults n (r >>= k) (bs ++ []) := hr.bind
  rwa [List.append_nil] at h

/-- A fault behind what was read. -/
theorem Reads.bindFaults (hr : Reads n r bs a) (hk : Faults n (k a) cs) :
    Faults n (r >>= k) (bs ++ cs) := by
  intro s tail hg hrest hroom hstack
  rw [List.append_assoc] at hrest
  rw [List.length_append] at hroom
  have hle : bs.length ≤ s.is.rest.length := by
    rw [hrest, List.length_append]
    omega
  rw [StateT.run_bind, hr s (cs ++ tail) hg hrest hroom.left (by omega)]
  exact hk _ tail hg (IStream.rest_advance_of_prefix hrest) (hroom.right hle) hstack

theorem Faults.bind_nil {γ : Type} {q : ReadM γ} {c : γ} {k : γ → ReadM β}
    (hq : ∀ s, s.is.good = true → q.run s = some (c, s)) (hk : Faults n (k c) bs) :
    Faults n (q >>= k) bs := by
  intro s tail hg hrest hroom hstack
  rw [StateT.run_bind, hq s hg]
  exact hk s tail hg hrest hroom hstack

theorem Faults.unlessStopped {old : α} (hr : Faults n r bs) (hne : bs ≠ []) :
    Faults n (do if ← checkStopParse then return old else r) bs := by
  intro s tail hg hrest hroom hstack
  have hroom₁ : s.Room 1 := by
    obtain ⟨b, bs, rfl⟩ := List.exists_cons_of_ne_nil hne
    rw [List.length_cons, Nat.add_comm] at hroom
    exact hroom.left
  rw [StateT.run_bind, run_checkStopParse hg hroom₁]
  exact hr s tail hg hrest hroom hstack

/-- Behind a size that fits the loop over the elements is entered. -/
theorem faults_container {tag : TypeTag} {old empty : β} {body : β → ReadM β} {m : ℕ}
    (hm : m ≤ maxContainerSize) (hloop : Faults n (readLoop body m empty) bs) :
    Faults n (readContainer tag old empty body) (tag.code :: (u16 m ++ bs)) := by
  have h65536 : m < 65536 := hm.trans_lt (by decide)
  refine Faults.unlessStopped ?_ (List.cons_ne_nil _ _)
  show Faults n _ ([tag.code] ++ (u16 m ++ bs))
  refine (reads_type tag).bindFaults ?_
  refine (reads_size h65536).bindFaults ?_
  refine Faults.bind_nil (fun s hg => run_checkStream_of_goodR hg) ?_
  rw [if_pos rfl, checkContainerSize_of_le hm]
  exact hloop

theorem reads_userHead (old : α) (members : ReadM α) (hlen : 2 + bs.length < 65536)
    {s : ReadState} {tail : List UInt8} (hg : s.is.good = true)
    (hrest : s.is.rest = TypeTag.userDefined.code :: (u16 (2 + bs.length) ++ bs) ++ tail)
    (hroom : s.Room (TypeTag.userDefined.code :: (u16 (2 + bs.length) ++ bs)).length)
    (hstack : s.stopParsePos.length ≤ maxParseStackDepth) :
    ∃ (p : ℤ) (k : α → ReadM α), (s.is.pos : ℤ) + 3 + bs.length = p ∧
      (readUser old members).run s =
        (do pushStopParsePos p
            let t ← members
            k t : ReadM α).run (s.advance 3) := by
  have htotal : (TypeTag.userDefined.code :: (u16 (2 + bs.length) ++ bs)).length =
      3 + bs.length := by
    rw [List.length_cons, List.length_append, length_u16]
    omega
  rw [htotal] at hroom
  rw [List.cons_append, List.append_assoc] at hrest
  exact ⟨_, _, by omega, run_readUser hlen hg hrest hroom hstack⟩

/-- An object with a full stack: there is no room for its end. -/
theorem faults_user_of_full {old : α} {members : ReadM α} (hlen : 2 + bs.length < 65536) :
    Faults 0 (readUser old members) (TypeTag.userDefined.code :: (u16 (2 + bs.length) ++ bs)) := by
  intro s tail hg hrest hroom hstack
  obtain ⟨p, k, -, hrun⟩ := reads_userHead old members hlen hg hrest hroom (by omega)
  have hfull : ¬ (s.advance 3).stopParsePos.length < maxParseStackDepth := by
    show ¬ s.stopParsePos.length < _
    omega
  have hpush : (pushStopParsePos p).run (s.advance 3) = none := by
    unfold pushStopParsePos
    rw [StateT.run_bind, StateT.run_get]
    simp only [Option.pure_def, Option.bind_eq_bind, Option.bind_some, hfull, if_false]
    rfl
  rw [hrun, StateT.run_bind, hpush]
  rfl

/-- The members have one entry less. -/
theorem faults_user {old : α} {members : ReadM α} (hm : Faults n members bs)
    (hlen : 2 + bs.length < 65536) : Faults (n + 1) (readUser old members)
      (TypeTag.userDefined.code :: (u16 (2 + bs.length) ++ bs)) := by
  intro s tail hg hrest hroom hstack
  obtain ⟨p, k, hp, hrun⟩ := reads_userHead old members hlen hg hrest hroom (by omega)
  -- there is an entry left for the object itself
  have hslot : (s.advance 3).stopParsePos.length < maxParseStackDepth := by
    show s.stopParsePos.length < _
    omega
  have hle : 3 ≤ s.is.rest.length := by
    rw [hrest]
    simp only [List.length_append, List.length_cons, length_u16]
    omega
  have hmembers : members.run ((s.advance 3).push p) = none := by
    refine hm _ tail hg ?_ ?_ ?_
    · show (s.is.advance 3).rest = _
      rw [IStream.rest_advance, hrest, List.cons_append, List.append_assoc]
      rfl
    · intro q hq
      obtain rfl := Option.some.inj hq
      show ((s.is.advance 3).pos : ℤ) + bs.length ≤ p
      rw [IStream.pos_advance hle]
      omega
    · show s.stopParsePos.length + 1 + n = maxParseStackDepth
      omega
  rw [hrun, StateT.run_bind, run_pushStopParsePos hslot]
  show (members >>= k).run _ = none
  rw [StateT.run_bind, hmembers]
  rfl

end Rules

/-! ## Lower depth, or a fault -/

section Overloads

variable {C : Type u} {cls : Classes C} {obj : C → Val → ReadM Val}
  {E E' : C → Val → List UInt8 → Prop} {rcv : C → Val → Val → Val} {n : ℕ} {bs : List UInt8}

/-- What `E` describes is described by `E'`, which `obj` reads, or `obj` faults. -/
structure ReadsOrFaults (n : ℕ) (obj : C → Val → ReadM Val) (E E' : C → Val → List UInt8 → Prop)
    (rcv : C → Val → Val → Val) : Prop where
  reads : ReadsObjects n obj E' rcv
  ne_nil : ∀ c v bs, E c v bs → bs ≠ []
  object : ∀ c v bs, E c v bs → E' c v bs ∨ ∀ old, Faults n (obj c old) bs

/-- The first element that is not of lower depth faults. -/
theorem sequence_or_faults {α : Type u} {β : Type} {R R' : α → List UInt8 → Prop}
    {body : β → ReadM β} {l : List α} (h : Sequence R l bs)
    (hbody : ∀ a bs, R a bs → R' a bs ∨ ∀ container, Faults n (body container) bs)
    (hreads : ∀ container a bs, R' a bs → ∃ b, Reads n (body container) bs b) :
    Sequence R' l bs ∨ ∀ container, Faults n (readLoop body l.length container) bs := by
  induction h with
  | nil => exact Or.inl .nil
  | cons ha _ ih =>
    rcases hbody _ _ ha with ha | hf
    · rcases ih with hl | hf
      · exact Or.inl (.cons ha hl)
      · refine Or.inr fun container => ?_
        obtain ⟨b, hb⟩ := hreads container _ _ ha
        exact hb.bindFaults (hf b)
    · exact Or.inr fun container => (hf container).bind

theorem counted_or_faults {α : Type u} {β : Type} {R R' : α → List UInt8 → Prop} {tag : TypeTag}
    {body : β → ReadM β} {l : List α} (h : Counted tag R l bs)
    (hbody : ∀ a bs, R a bs → R' a bs ∨ ∀ container, Faults n (body container) bs)
    (hreads : ∀ container a bs, R' a bs → ∃ b, Reads n (body container) bs b) :
    Counted tag R' l bs ∨ ∀ old empty, Faults n (readContainer tag old empty body) bs := by
  obtain ⟨hlen, hseq⟩ := h
  rcases sequence_or_faults hseq hbody hreads with hseq | hf
  · exact Or.inl (.mk hlen hseq)
  · exact Or.inr fun old empty => faults_container hlen (hf empty)

/-- A container that takes in what a reader of its elements gives. -/
theorem container_or_faults {α : Type u} {β γ : Type} {R R' : α → List UInt8 → Prop}
    {tag : TypeTag} {r : ReadM γ} {step : γ → β → β} {g : α → γ} {l : List α}
    (h : Counted tag R l bs) (hr : ∀ a bs, R a bs → R' a bs ∨ Faults n r bs)
    (hreads : ∀ a bs, R' a bs → Reads n r bs (g a)) :
    Counted tag R' l bs ∨ ∀ old empty, Faults n
      (readContainer tag old empty fun container => do return step (← r) container) bs := by
  refine counted_or_faults h (fun a bs ha => ?_) fun container a bs ha => ⟨_, (hreads a bs ha).map⟩
  rcases hr a bs ha with ha | hf
  · exact Or.inl ha
  · exact Or.inr fun container => hf.map

variable (hobj : ReadsOrFaults n obj E E' rcv)
include hobj

theorem ReadsOrFaults.readClass {c : C} {v : Val} (h : E c v bs) :
    E' c v bs ∨ ∀ old, Faults n (readClass obj c old) bs := by
  rcases hobj.object c v bs h with h' | hf
  · exact Or.inl h'
  · exact Or.inr fun old => (hf old).unlessStopped (hobj.ne_nil c v bs h)

theorem ReadsOrFaults.elem {e : Elem C} {v : Val} (h : Elem.Encodes E e v bs) :
    Elem.Encodes E' e v bs ∨ Faults n (readElem cls obj e) bs := by
  cases h with
  | literal hpos hlen => exact Or.inl (.literal hpos hlen)
  | @object c v bs h =>
    rcases hobj.readClass h with h | hf
    · exact Or.inl (.object h)
    · exact Or.inr (hf (cls.fresh c))

theorem ReadsOrFaults.pointer {c : C} {p : Option Val} {init : List UInt8}
    (h : Pointer (E c) p bs) :
    Pointer (E' c) p bs ∨ Faults n (readPointer cls obj init c) bs := by
  cases h with
  | null => exact Or.inl .null
  | @object v bs h =>
    rcases hobj.object c v bs h with h | hf
    · exact Or.inl (.object h)
    · have hflag : Reads n (readLiteral init 1 false) [1] [1] := reads_literal Nat.one_pos rfl
      exact Or.inr (hflag.bindFaults (hf (cls.fresh c)).map)

/-- A map, of objects or of pointers. -/
theorem ReadsOrFaults.entries {β : Type} {tag : TypeTag} {k : Elem C} {S S' : β → List UInt8 → Prop}
    {q : ReadM β} {g : β → β} {l : List (Val × β)}
    {step : Val → β → List (Val × β) → List (Val × β)}
    (h : Counted tag (Pair (Elem.Encodes E k) S) l bs)
    (hq : ∀ b bs, S b bs → S' b bs ∨ Faults n q bs)
    (hreads : ∀ b bs, S' b bs → Reads n q bs (g b)) :
    Counted tag (Pair (Elem.Encodes E' k) S') l bs ∨ ∀ old empty, Faults n
      (readContainer tag old empty fun container => do
        let key ← readElem cls obj k
        let value ← q
        return step key value container) bs := by
  refine counted_or_faults h ?_ ?_
  · rintro ⟨a, b⟩ _ ⟨ha, hb⟩
    have helem : Elem.Encodes E' k a _ ∨ Faults n (readElem cls obj k) _ := hobj.elem ha
    rcases helem with ha | hf
    · rcases hq b _ hb with hb | hf
      · exact Or.inl (.mk ha hb)
      · exact Or.inr fun container => (hobj.reads.readElem ha).bindFaults hf.map
    · exact Or.inr fun container => hf.bind
  · rintro container ⟨a, b⟩ _ ⟨ha, hb⟩
    exact ⟨_, (hobj.reads.readElem ha).bind (hreads b _ hb).map⟩

theorem ReadsOrFaults.field {f : Field C} {v : Val} (h : Field.Encodes E f v bs) :
    Field.Encodes E' f v bs ∨ ∀ old, Faults n (readField cls obj f old) bs := by
  cases h with
  | literal hpos hlen => exact Or.inl (.literal hpos hlen)
  | string hlen => exact Or.inl (.string hlen)
  | wstring hlen => exact Or.inl (.wstring hlen)
  | chars hn hzero hlen => exact Or.inl (.chars hn hzero hlen)
  | vectorBool h => exact Or.inl (.vectorBool h)
  | object h =>
    rcases hobj.readClass h with h | hf
    · exact Or.inl (.object h)
    · exact Or.inr hf
  | vector h =>
    rcases container_or_faults h (fun _ _ => hobj.elem) fun _ _ => hobj.reads.readElem with h | hf
    · exact Or.inl (.vector h)
    · exact Or.inr fun old => (hf old.values []).map
  | vectorPtr h =>
    rcases container_or_faults h (fun _ _ => hobj.pointer) fun _ _ => hobj.reads.readPointer with
      h | hf
    · exact Or.inl (.vectorPtr h)
    · exact Or.inr fun old => (hf old.refs []).map
  | list h =>
    rcases container_or_faults h (fun _ _ => hobj.elem) fun _ _ => hobj.reads.readElem with h | hf
    · exact Or.inl (.list h)
    · exact Or.inr fun old => (hf old.values []).map
  | listPtr h =>
    rcases container_or_faults h (fun _ _ => hobj.pointer) fun _ _ => hobj.reads.readPointer with
      h | hf
    · exact Or.inl (.listPtr h)
    · exact Or.inr fun old => (hf old.refs []).map
  | set hs h =>
    rcases container_or_faults h (fun _ _ => hobj.elem) fun _ _ => hobj.reads.readElem with h | hf
    · exact Or.inl (.set hs h)
    · exact Or.inr fun old => (hf old.values []).map
  | setPtr hs h =>
    rcases container_or_faults h (fun _ _ => hobj.pointer) fun _ _ => hobj.reads.readPointer with
      h | hf
    · exact Or.inl (.setPtr hs h)
    · exact Or.inr fun old => (hf old.refs []).map
  | map hs h =>
    rcases hobj.entries h (fun _ _ => hobj.elem) fun _ _ => hobj.reads.readElem with h | hf
    · exact Or.inl (.map hs h)
    · exact Or.inr fun old => (hf old.pairs []).map
  | mapPtr hs h =>
    rcases hobj.entries h (fun _ _ => hobj.pointer) fun _ _ => hobj.reads.readPointer with h | hf
    · exact Or.inl (.mapPtr hs h)
    · exact Or.inr fun old => (hf old.refPairs []).map

theorem ReadsOrFaults.members {fs : List (Field C)} {vs : List Val}
    (h : Members (Field.Encodes E) fs vs bs) :
    Members (Field.Encodes E') fs vs bs ∨ ∀ olds, Faults n (readMembers cls obj fs olds) bs := by
  induction h with
  | nil => exact Or.inl .nil
  | cons hf _ ih =>
    have hfield : Field.Encodes E' _ _ _ ∨ ∀ old, Faults n (readField cls obj _ old) _ :=
      hobj.field hf
    rcases hfield with hf | hfault
    · rcases ih with hm | hfault
      · exact Or.inl (.cons hf hm)
      · exact Or.inr fun olds => (hobj.reads.readField hf).bindFaults (hfault olds.tail).map
    · exact Or.inr fun olds => (hfault _).bind

end Overloads

/-- By induction on the entries that are left: an object takes one of them, and
one that finds none faults. -/
theorem readsOrFaults_object {C : Type u} (cls : Classes C) {n m depth : ℕ} (hle : n ≤ m) :
    ReadsOrFaults n (readObject cls m) (cls.Encodes depth) (cls.Encodes n)
      (received cls Field.keep n) := by
  refine ⟨reads_object cls.versions_self hle, fun _ _ _ => Classes.Encodes.ne_nil, ?_⟩
  induction n generalizing m depth with
  | zero =>
    intro c v bs h
    refine Or.inr fun old => ?_
    cases m with
    | zero =>
      intro s tail _ _ _ _
      rfl
    | succ m =>
      cases depth with
      | zero => exact h.elim
      | succ depth =>
        obtain ⟨members, body, rfl, -, hlen, rfl⟩ := h
        -- no entry is left for the object
        exact faults_user_of_full hlen
  | succ n ih =>
    intro c v bs h
    obtain ⟨m, rfl⟩ : ∃ k, m = k + 1 := ⟨m - 1, by omega⟩
    have hle' : n ≤ m := Nat.le_of_succ_le_succ hle
    cases depth with
    | zero => exact h.elim
    | succ depth =>
      obtain ⟨members, body, rfl, hm, hlen, rfl⟩ := h
      have hobj : ReadsOrFaults n (readObject cls m) (cls.Encodes depth) (cls.Encodes n)
          (received cls Field.keep n) :=
        ⟨reads_object cls.versions_self hle', fun _ _ _ => Classes.Encodes.ne_nil, ih hle'⟩
      have hmembers : Members (Field.Encodes (cls.Encodes n)) _ members body ∨
          ∀ olds, Faults n (readMembers cls (readObject cls m) _ olds) body := hobj.members hm
      rcases hmembers with hm | hf
      · exact Or.inl ⟨members, body, rfl, hm, hlen, rfl⟩
      · exact Or.inr fun old => faults_user (hf old.members).map hlen

/-! ## Main result -/

/-- A read of the bytes does not fault, and leaves the stream good and no error. -/
def ReadsBack {C : Type u} (cls : Classes C) (f : Field C) (bs : List UInt8) : Prop :=
  ∀ (is : IStream) (tail : List UInt8) (old : Val) (e : ParsingError), is.good = true →
    is.rest = bs ++ tail → ∃ a r, (read cls f old).run ⟨is, [], e⟩ = some (a, r) ∧
      r.is.good = true ∧ r.lastError = e

/-- What a `write` of a value of any depth has put is read back just when the
objects of the value nest at most `maxParseStackDepth` deep. -/
theorem reads_back_iff {C : Type u} (cls : Classes C) {depth : ℕ} {f : Field C} {v : Val}
    (hv : Field.Valid (cls.Valid depth) f v) (os : OStream) (e : ParsingError) :
    ∃ w, (write cls depth f v).run ⟨os, e⟩ = some ((), w) ∧
      (w.os.good = true → ∃ bs, w.os = os.put bs ∧
        (ReadsBack cls f bs ↔ Field.Valid (cls.Valid maxParseStackDepth) f v)) := by
  obtain ⟨w, hrun, hw⟩ := writes_write cls hv ⟨os, e⟩
  refine ⟨w, hrun, fun hgood => ?_⟩
  obtain ⟨-, bs, henc, rfl⟩ := hw (OStream.good_eq_true.mp hgood)
  refine ⟨bs, rfl, ?_, ?_⟩
  · intro hback
    have hobj : ReadsOrFaults maxParseStackDepth (readObject cls (maxParseStackDepth + 1))
        (cls.Encodes depth) _ _ := readsOrFaults_object cls (Nat.le_succ _)
    have hfield : Field.Encodes (cls.Encodes maxParseStackDepth) f v bs ∨
        ∀ old, Faults maxParseStackDepth
          (readField cls (readObject cls (maxParseStackDepth + 1)) f old) bs := hobj.field henc
    rcases hfield with henc | hf
    · exact henc.valid fun _ _ _ h => h.valid
    · -- the bytes alone, on a stream without anything behind them
      obtain ⟨a, r, hread, -⟩ :=
        hback (IStream.open_ bs) [] (.object []) .none rfl (List.append_nil bs).symm
      have hnone := hf (.object []) ⟨IStream.open_ bs, [], .none⟩ [] rfl (List.append_nil bs).symm
        (by simp [ReadState.Room]) rfl
      rw [read, hnone] at hread
      cases hread
  · intro hvalid is tail old e' hg hrest
    have henc' := hvalid.restrict (fun _ _ _ hv h => h.restrict hv) henc
    have hread := reads_read cls.versions_self henc' old ⟨is, [], e'⟩ tail hg hrest
      (by simp [ReadState.Room]) (Nat.le_refl _)
    exact ⟨_, _, hread, hg, rfl⟩

/-! ## Boxes -/

/-- A class whose only member holds pointers to objects of the class. -/
def boxes : Classes Unit where
  fields _ := [.vectorPtr ()]
  fresh _ := .object [.pointers []]
  indeterminate size := List.replicate size 0

/-- A box with `n` boxes inside, each in the one before. -/
def box : ℕ → Val
  | 0 => .object [.pointers []]
  | n + 1 => .object [.pointers [none, some (box n)]]

theorem box_valid (n : ℕ) : boxes.Valid (n + 1) () (box n) := by
  induction n with
  | zero => exact ⟨_, rfl, .cons (.typed (.vectorPtr (by simp))) .nil⟩
  | succ n ih =>
    refine ⟨_, rfl, .cons (.typed (.vectorPtr ?_)) .nil⟩
    intro v hv
    simp only [List.mem_cons, reduceCtorEq, Option.some.injEq, List.not_mem_nil, or_false,
      false_or] at hv
    rw [hv]
    exact ih

/-- Five boxes are written and read back. -/
theorem reads_back_iff_box : ∃ w, (write boxes 5 (.object ()) (box 4)).run
      ⟨OStream.fresh, .none⟩ = some ((), w) ∧ w.os.good = true ∧
    ∃ bs, w.os = OStream.fresh.put bs ∧
      (ReadsBack boxes (.object ()) bs ↔
        Field.Valid (boxes.Valid maxParseStackDepth) (.object ()) (box 4)) := by
  have hany : ((write boxes 5 (.object ()) (box 4)).run ⟨OStream.fresh, .none⟩).any
      (fun r => r.2.os.good) = true := by
    decide +kernel
  obtain ⟨w, hrun, hw⟩ := reads_back_iff boxes (f := .object ()) (.typed (.object (box_valid 4)))
    OStream.fresh .none
  have hgood : w.os.good = true := by
    rw [hrun] at hany
    exact hany
  exact ⟨w, hrun, hgood, hw hgood⟩

/-- Six boxes are written, and the read of them fails the assertion. -/
theorem not_reads_back_box : ∃ w, (write boxes 6 (.object ()) (box 5)).run
      ⟨OStream.fresh, .none⟩ = some ((), w) ∧ w.os.good = true ∧
    (read boxes (.object ()) (.object [])).run ⟨IStream.open_ w.os.buf, [], .none⟩ = none := by
  have hany : ((write boxes 6 (.object ()) (box 5)).run ⟨OStream.fresh, .none⟩).any
      (fun r => r.2.os.good && ((read boxes (.object ()) (.object [])).run
        ⟨IStream.open_ r.2.os.buf, [], .none⟩).isNone) = true := by
    decide +kernel
  obtain ⟨⟨⟨⟩, w⟩, hrun, hp⟩ := (Option.any_eq_true ..).mp hany
  obtain ⟨hgood, hnone⟩ := Bool.and_eq_true_iff.mp hp
  exact ⟨w, hrun, hgood, Option.isNone_iff_eq_none.mp hnone⟩

end Serialize

end AsyncSqlite
