import AsyncSqlite.Serialize.Read

/-!
# AsyncSqlite.Serialize.Extent — how far a read goes

`View` gives the positions up to which the readers go, from the bytes and the
innermost stop position alone: whether to stop is asked where a value, a size or
a text begins, and what has begun is read to its end.

`Goes m low r P` is the specification of a reader on any bytes. A run that leaves the
stream good ends where and with what `P` says, and depends on no byte behind its
end: with other bytes there it is the same run (`Agrees`), and without the last
of its bytes it fails. On a failed stream it fails.
-/

namespace AsyncSqlite

universe u

namespace Serialize

/-! ## Positions -/

/-- What decides how far a reader goes. -/
structure View where
  buf : List UInt8
  /-- the innermost stop position -/
  stop : Option ℤ

namespace View

variable (v : View)

/-- `check_stop_parse` -/
def stopped (p : ℕ) : Bool := v.stop.any fun stopParsePos => decide (stopParsePos ≤ (p : ℤ))

def bytes (k p : ℕ) : List UInt8 := (v.buf.drop p).take k

/-- `k` bytes, all of them once they have begun. -/
def skip (k p : ℕ) : ℕ := if v.stopped p then p else p + k

/-- The size that is read at `p`. -/
def sizeAt (p : ℕ) : ℕ := if v.stopped p then 0 else ofU16 (v.bytes 2 p)

/-- A tag, and what follows it. -/
def tagged (next : ℕ → ℕ) (p : ℕ) : ℕ := if v.stopped p then p else next (p + 1)

/-- A tag, a size, and what follows them. -/
def counted (next : ℕ → ℕ → ℕ) : ℕ → ℕ := v.tagged fun p => next (v.sizeAt p) (v.skip 2 p)

section Fields

variable {C : Type u} (cls : Classes C) (obj : View → C → ℕ → ℕ)

def elem : Elem C → ℕ → ℕ
  | .literal size => v.skip size
  | .object c => obj v c

def pointer (init : List UInt8) (c : C) (p : ℕ) : ℕ :=
  let notNULL := if v.stopped p then init else v.bytes 1 p
  if notNULL ≠ [0] then obj v c (v.skip 1 p) else v.skip 1 p

def field : Field C → ℕ → ℕ
  | .literal size => v.tagged (v.skip size)
  | .string => v.counted v.skip
  | .wstring => v.counted fun size => (v.skip 2)^[size]
  | .chars _ => v.counted v.skip
  | .object c => obj v c
  | .vectorBool => v.counted fun size => (v.tagged (v.skip 1))^[size]
  | .vector e => v.counted fun size => (v.elem obj e)^[size]
  | .vectorPtr c => v.counted fun size => (v.pointer obj [0] c)^[size]
  | .list e => v.counted fun size => (v.elem obj e)^[size]
  | .listPtr c => v.counted fun size => (v.pointer obj [0] c)^[size]
  | .set e _ => v.counted fun size => (v.elem obj e)^[size]
  | .setPtr c _ => v.counted fun size => (v.pointer obj [0] c)^[size]
  | .map k e _ => v.counted fun size => (v.elem obj e ∘ v.elem obj k)^[size]
  | .mapPtr k c _ => v.counted fun size =>
      (v.pointer obj (cls.indeterminate 1) c ∘ v.elem obj k)^[size]

def members : List (Field C) → ℕ → ℕ
  | [], p => p
  | f :: fs, p => members fs (v.field cls obj f p)

end Fields

/-- What is left of `size` bytes from `start` on is skipped. -/
def skipEnd (start size p : ℕ) : ℕ :=
  if (p - start) % 65536 < size then p + (size - (p - start) % 65536) else p

end View

/-- The members of an object whose size field is at `start`. -/
def View.body {C : Type u} (cls : Classes C) (obj : View → C → ℕ → ℕ) (v : View) (c : C)
    (start : ℕ) : ℕ :=
  View.members { v with stop := some (start + v.sizeAt start : ℕ) } cls obj (cls.fields c)
    (v.skip 2 start)

/-- An object. -/
def View.object {C : Type u} (cls : Classes C) : ℕ → View → C → ℕ → ℕ
  | 0, _, _, p => p
  | n + 1, v, c, p => v.tagged (fun start =>
      skipEnd start (v.sizeAt start) (v.body cls (View.object cls n) c start)) p

/-! ## Runs on any bytes -/

namespace ReadState

variable {s s' t : ReadState} {e k m : ℕ}

def view (s : ReadState) : View := ⟨s.is.buf, s.stopParsePos.head?⟩

/-- The bytes before `e` are the same. -/
structure Agrees (e : ℕ) (s s' : ReadState) : Prop where
  good : s'.is.good = true
  pos : s'.is.pos = s.is.pos
  stack : s'.stopParsePos = s.stopParsePos
  le : e ≤ s.is.buf.length
  le' : e ≤ s'.is.buf.length
  take : s'.is.buf.take e = s.is.buf.take e

/-- `stopParsePosStack` has no more room than for objects that nest less than
`m` deep. -/
def Deep (m : ℕ) (s : ReadState) : Prop :=
  s.stopParsePos.length ≤ maxParseStackDepth ∧ maxParseStackDepth < s.stopParsePos.length + m

theorem pos_advance_of_le (h : s.is.pos + k ≤ s.is.buf.length) :
    (s.advance k).is.pos = s.is.pos + k := by
  apply IStream.pos_advance
  rw [IStream.length_rest]
  omega

theorem Agrees.advance (h : s.Agrees e s') (hk : s.is.pos + k ≤ e) :
    (s.advance k).Agrees e (s'.advance k) := by
  have hle := h.le
  have hle' := h.le'
  have hpos := h.pos
  refine ⟨h.good, ?_, h.stack, hle, hle', h.take⟩
  rw [pos_advance_of_le (by omega), pos_advance_of_le (by omega), hpos]

/-- Bytes before `e` are read the same. -/
theorem Agrees.bytes_eq (h : s.Agrees e s') (hk : s.is.pos + k ≤ e) :
    s'.is.rest.take k = s.is.rest.take k := by
  have hdrop (l : List UInt8) : (l.drop s.is.pos).take k =
      ((l.take e).drop s.is.pos).take k := by
    rw [List.drop_take, List.take_take, Nat.min_eq_left (by omega)]
  rw [IStream.rest, IStream.rest, h.pos, hdrop, h.take, ← hdrop]

end ReadState

section Goes

variable {α β : Type} {m low : ℕ}

/-- The run ends with failbit, with the stack as it was. -/
def Fails (r : ReadM α) (s : ReadState) : Prop :=
  ∃ a t, r.run s = some (a, t) ∧ t.is.failbit = true ∧ t.stopParsePos = s.stopParsePos

/-- The run that goes `k` bytes on depends on these alone. -/
def Local (r : ReadM α) (s : ReadState) (a : α) (k : ℕ) : Prop :=
  ∀ e s', s.Agrees e s' → (s.is.pos + k ≤ e → r.run s' = some (a, s'.advance k)) ∧
    (s'.is.buf.length = e → e < s.is.pos + k → Fails r s')

structure Goes (m low : ℕ) (r : ReadM α) (P : View → ℕ → α → ℕ → Prop) : Prop where
  fails : ∀ s, s.Deep m → s.is.failbit = true → Fails r s
  runs : ∀ s a t, s.Deep m → s.is.good = true → low ≤ s.is.pos → r.run s = some (a, t) →
    (t.is.failbit = true ∧ t.stopParsePos = s.stopParsePos) ∨
      ∃ k, s.is.pos + k ≤ s.is.buf.length ∧ t = s.advance k ∧
        P s.view s.is.pos a (s.is.pos + k) ∧ Local r s a k

variable {r : ReadM α} {k : α → ReadM β} {P P' : View → ℕ → α → ℕ → Prop}
  {Q : α → View → ℕ → β → ℕ → Prop} {s : ReadState}

theorem Goes.mono (hr : Goes m low r P) (h : ∀ v p a q, P v p a q → P' v p a q) :
    Goes m low r P' := by
  refine ⟨hr.fails, fun s a t hdeep hg hlow hrun => ?_⟩
  rcases hr.runs s a t hdeep hg hlow hrun with hfail | ⟨k, hle, ht, hP, hlocal⟩
  · exact Or.inl hfail
  · exact Or.inr ⟨k, hle, ht, h _ _ _ _ hP, hlocal⟩

theorem Fails.bind (hr : Fails r s)
    (hk : ∀ a t, t.stopParsePos = s.stopParsePos → t.is.failbit = true → Fails (k a) t) :
    Fails (r >>= k) s := by
  obtain ⟨a, t, hrun, hf, hstack⟩ := hr
  obtain ⟨b, t', hrun', hf', hstack'⟩ := hk a t hstack hf
  refine ⟨b, t', ?_, hf', hstack'.trans hstack⟩
  rw [StateT.run_bind, hrun]
  exact hrun'

theorem ReadState.Deep.of_eq {t : ReadState} (h : s.Deep m)
    (hstack : t.stopParsePos = s.stopParsePos) : t.Deep m := by
  rw [ReadState.Deep, hstack]
  exact h

/-- Where the first reader goes on, the second one goes on from there. -/
theorem Goes.bind (hr : Goes m low r P) (hk : ∀ a, Goes m low (k a) (Q a)) :
    Goes m low (r >>= k) fun v p b q => ∃ a mid, P v p a mid ∧ Q a v mid b q := by
  have hfailed (s : ReadState) (hdeep : s.Deep m) (h : Fails r s) : Fails (r >>= k) s :=
    h.bind fun a t hstack hf => (hk a).fails t (hdeep.of_eq hstack) hf
  refine ⟨fun s hdeep hf => hfailed s hdeep (hr.fails s hdeep hf), ?_⟩
  intro s b t hdeep hg hlow hrun
  rw [StateT.run_bind] at hrun
  obtain ⟨⟨a, s₁⟩, hfirst, hsecond⟩ := Option.bind_eq_some_iff.mp hrun
  rcases hr.runs s a s₁ hdeep hg hlow hfirst with ⟨hf, hstack⟩ | ⟨i, hi, rfl, hP, hlocal⟩
  · obtain ⟨b', t', hrun', hf', hstack'⟩ := (hk a).fails s₁ (hdeep.of_eq hstack) hf
    obtain ⟨-, rfl⟩ := Prod.mk.inj (Option.some.inj (hrun'.symm.trans hsecond))
    exact Or.inl ⟨hf', hstack'.trans hstack⟩
  · have hpos := ReadState.pos_advance_of_le hi
    rcases (hk a).runs (s.advance i) b t (hdeep.of_eq rfl) hg (by omega) hsecond with
      hfail | ⟨j, hj, rfl, hQ, hlocal'⟩
    · exact Or.inl hfail
    · rw [hpos] at hj hQ
      have hsum : s.is.pos + (i + j) = s.is.pos + i + j := (Nat.add_assoc _ _ _).symm
      refine Or.inr ⟨i + j, hsum ▸ hj, s.advance_advance i j, ⟨a, _, hP, hsum ▸ hQ⟩, ?_⟩
      intro e s' hagree
      obtain ⟨hsame, hcut⟩ := hlocal e s' hagree
      constructor
      · intro hle
        obtain ⟨hsame', -⟩ := hlocal' e _ (hagree.advance (by omega))
        rw [StateT.run_bind, hsame (by omega), ← s'.advance_advance i j]
        exact hsame' (by omega)
      · intro hend hlt
        -- the stream is cut within the first reader, or behind it
        rcases Nat.lt_or_ge e (s.is.pos + i) with hlt' | hge
        · exact hfailed s' (hdeep.of_eq hagree.stack) (hcut hend hlt')
        · obtain ⟨-, hcut'⟩ := hlocal' e _ (hagree.advance hge)
          obtain ⟨b', t', hrun', hf', hstack'⟩ := hcut' hend (by omega)
          refine ⟨b', t', ?_, hf', hstack'⟩
          rw [StateT.run_bind, hsame hge]
          exact hrun'

theorem goes_pure (a : α) : Goes m low (pure a) fun _ p b q => b = a ∧ q = p := by
  refine ⟨fun s _ hf => ⟨a, s, rfl, hf, rfl⟩, ?_⟩
  rintro s b t - - - hrun
  obtain ⟨rfl, rfl⟩ := Prod.mk.inj (Option.some.inj hrun)
  have hzero (s : ReadState) : s.advance 0 = s := by
    simp [ReadState.advance]
  refine Or.inr ⟨0, s.is.pos_le, (hzero s).symm, ⟨rfl, rfl⟩, fun e s' hagree => ⟨fun _ => ?_, ?_⟩⟩
  · rw [hzero]
    rfl
  · intro hend hlt
    have := hagree.pos
    have := s'.is.pos_le
    omega

theorem Goes.map {f : α → β} {lay : View → ℕ → ℕ} (hr : Goes m low r fun v p _ q => q = lay v p) :
    Goes m low (do return f (← r)) fun v p _ q => q = lay v p := by
  refine (hr.bind fun a => goes_pure (f a)).mono ?_
  rintro v p b q ⟨a, mid, rfl, -, rfl⟩
  rfl

/-- A reader that fails. -/
theorem goes_failRead (e : ParsingError) (a : α) :
    Goes m low (do failRead e; return a) P := by
  refine ⟨fun s _ _ => ⟨a, _, rfl, rfl, rfl⟩, ?_⟩
  intro s b t _ _ _ hrun
  obtain ⟨-, rfl⟩ := Prod.mk.inj (Option.some.inj hrun)
  exact Or.inl ⟨rfl, rfl⟩

/-! ### The checks -/

theorem stopped_view (hg : s.is.good = true) :
    checkStopParse.run s = some (s.view.stopped s.is.pos, s) := by
  cases hstack : s.stopParsePos with
  | nil =>
    have hview : s.view.stopped s.is.pos = false := by
      simp [ReadState.view, View.stopped, hstack]
    rw [hview]
    exact run_checkStopParse hg (by simp [ReadState.Room, hstack])
  | cons stop stack =>
    have hview : s.view.stopped s.is.pos = decide (stop ≤ (s.is.pos : ℤ)) := by
      simp [ReadState.view, View.stopped, hstack]
    rw [hview]
    by_cases hle : stop ≤ (s.is.pos : ℤ)
    · rw [decide_eq_true hle]
      exact run_checkStopParse_of_stopped hg (by simp [hstack]) hle
    · rw [decide_eq_false hle]
      refine run_checkStopParse hg fun p hp => ?_
      obtain rfl : stop = p := by
        simpa [hstack] using hp
      omega

theorem ReadState.Agrees.stopped_eq {e : ℕ} {s' : ReadState} (h : s.Agrees e s') :
    s'.view.stopped s'.is.pos = s.view.stopped s.is.pos := by
  simp only [view, View.stopped, h.stack, h.pos]

theorem fails_checkStopParse (hf : s.is.failbit = true) : Fails checkStopParse s := by
  have hbad : s.is.good = false := by
    simp [IStream.good, hf]
  cases heof : s.is.eofbit with
  | true =>
    refine ⟨true, { s with lastError := .endOfFile }, ?_, hf, rfl⟩
    simp [checkStopParse, heof, raiseError]
  | false =>
    cases hstack : s.stopParsePos with
    | nil => exact ⟨false, s, by simp [checkStopParse, heof, hstack], hf, rfl⟩
    | cons stop stack =>
      refine ⟨decide (stop ≤ -1), { s with is := s.is.setFail }, ?_, rfl, rfl⟩
      simp [checkStopParse, heof, hstack, tellg, onStream, IStream.tellg, hbad]

/-- Where reading stops, the target stays as it is. -/
theorem Goes.unlessStopped {old : α} (hr : Goes m low r P) :
    Goes m low (do if ← checkStopParse then return old else r) fun v p a q =>
      if v.stopped p = true then a = old ∧ q = p else P v p a q := by
  constructor
  · intro s hdeep hf
    refine (fails_checkStopParse hf).bind fun b t hstack hf' => ?_
    cases b with
    | true => exact ⟨old, t, rfl, hf', rfl⟩
    | false => exact hr.fails t (hdeep.of_eq hstack) hf'
  · intro s a t hdeep hg hlow hrun
    rw [StateT.run_bind, stopped_view hg] at hrun
    cases hstop : s.view.stopped s.is.pos with
    | true =>
      rw [hstop] at hrun
      have hpure := (goes_pure old).runs s a t hdeep hg hlow hrun
      refine hpure.imp_right ?_
      rintro ⟨k, hk, rfl, hP, hlocal⟩
      refine ⟨k, hk, rfl, by rwa [if_pos rfl], fun e s' hagree => ?_⟩
      rw [Fails, StateT.run_bind, stopped_view hagree.good, hagree.stopped_eq, hstop]
      exact hlocal e s' hagree
    | false =>
      rw [hstop] at hrun
      refine (hr.runs s a t hdeep hg hlow hrun).imp_right ?_
      rintro ⟨k, hk, rfl, hP, hlocal⟩
      refine ⟨k, hk, rfl, by rwa [if_neg Bool.false_ne_true], fun e s' hagree => ?_⟩
      rw [Fails, StateT.run_bind, stopped_view hagree.good, hagree.stopped_eq, hstop]
      exact hlocal e s' hagree

/-! ### The bytes -/

theorem goes_read (size : ℕ) : Goes m low (onStream (IStream.read · size)) fun v p a q =>
    a = v.bytes size p ∧ a.length = size ∧ q = p + size := by
  -- a stream that failed, one with too few bytes, and one with enough
  have hbad (s : ReadState) (hg : s.is.good = false) :
      Fails (onStream (IStream.read · size)) s := by
    refine ⟨_, _, rfl, ?_, rfl⟩
    simp [IStream.read, hg, IStream.setFail]
  have hshort (s : ReadState) (hg : s.is.good = true) (hlt : s.is.rest.length < size) :
      Fails (onStream (IStream.read · size)) s := by
    refine ⟨_, _, rfl, ?_, rfl⟩
    simp [IStream.read, hg, hlt]
  have hfull (s : ReadState) (hg : s.is.good = true) (hle : size ≤ s.is.rest.length) :
      (onStream (IStream.read · size)).run s = some (s.is.rest.take size, s.advance size) := by
    have hread : s.is.read size = (s.is.rest.take size, s.is.advance size) := by
      simp [IStream.read, hg, not_lt.mpr hle]
    show some ((s.is.read size).1, { s with is := (s.is.read size).2 }) = _
    rw [hread]
    rfl
  constructor
  · intro s _ hf
    exact hbad s (by simp [IStream.good, hf])
  · intro s a t _ hg _ hrun
    rcases Nat.lt_or_ge s.is.rest.length size with hlt | hle
    · obtain ⟨a', t', hrun', hf', hstack'⟩ := hshort s hg hlt
      obtain ⟨-, rfl⟩ := Prod.mk.inj (Option.some.inj (hrun'.symm.trans hrun))
      exact Or.inl ⟨hf', hstack'⟩
    · obtain ⟨rfl, rfl⟩ := Prod.mk.inj (Option.some.inj ((hfull s hg hle).symm.trans hrun))
      have hpos := s.is.pos_le
      have hend : s.is.pos + size ≤ s.is.buf.length := by
        rw [IStream.length_rest] at hle
        omega
      refine Or.inr ⟨size, hend, rfl, ⟨rfl, List.length_take_of_le hle, rfl⟩,
        fun e s' hagree => ⟨fun hsize => ?_, ?_⟩⟩
      · rw [← hagree.bytes_eq hsize]
        refine hfull s' hagree.good ?_
        have := hagree.pos
        have := hagree.le'
        rw [IStream.length_rest]
        omega
      · intro hlast hlt
        refine hshort s' hagree.good ?_
        have := hagree.pos
        have := s'.is.pos_le
        rw [IStream.length_rest]
        omega

theorem goes_internal (old : List UInt8) (size : ℕ) :
    Goes m low (readInternal old size) fun v p a q => q = v.skip size p ∧
      (v.stopped p = true → a = old) ∧ (v.stopped p = false → a = v.bytes size p) := by
  have hread : Goes m low (do return overlay size old (← onStream (IStream.read · size)))
      fun v p a q => a = v.bytes size p ∧ q = p + size := by
    refine ((goes_read size).bind fun got => goes_pure (overlay size old got)).mono ?_
    rintro v p a q ⟨_, mid, ⟨rfl, hlen, rfl⟩, rfl, rfl⟩
    refine ⟨?_, rfl⟩
    rw [overlay, List.take_append_of_le_length hlen.ge, List.take_of_length_le hlen.le]
  refine hread.unlessStopped.mono fun v p a q h => ?_
  cases hstop : v.stopped p with
  | true =>
    rw [hstop, if_pos rfl] at h
    simp [View.skip, hstop, h.1, h.2]
  | false =>
    rw [hstop, if_neg Bool.false_ne_true] at h
    simp [View.skip, hstop, h.1, h.2]

/-- A tag that is there is consumed. -/
theorem run_readType {t : TypeTag} (hg : s.is.good = true)
    (hstop : s.view.stopped s.is.pos = false) (hhead : s.is.rest.head? = some t.code) :
    (readType t).run s = some (true, s.advance 1) := by
  obtain ⟨tail, hrest⟩ : ∃ tail, s.is.rest = t.code :: tail := by
    cases hrest : s.is.rest with
    | nil => simp [hrest] at hhead
    | cons b tail =>
      obtain rfl : b = t.code := by
        simpa [hrest] using hhead
      exact ⟨tail, rfl⟩
  have hpeek : s.is.peek = (some t.code, s.is) := IStream.peek_of_rest hg hrest
  have hbyte : (readInternal [0] 1).run s = some ([t.code], s.advance 1) := by
    have hread : s.is.read 1 = ([t.code], s.is.advance 1) := by
      simp [IStream.read, hg, hrest]
    rw [readInternal, StateT.run_bind, stopped_view hg, hstop]
    show some (overlay 1 [0] (s.is.read 1).1, { s with is := (s.is.read 1).2 }) = _
    rw [hread]
    rfl
  have hpeekRun : (onStream IStream.peek).run s = some (some t.code, s) := by
    show some ((s.is.peek).1, { s with is := (s.is.peek).2 }) = _
    rw [hpeek]
  unfold readType
  rw [StateT.run_bind, hpeekRun]
  simp [hbyte]

/-- Any other byte, or none, is an error. -/
theorem run_readType_of_ne {t : TypeTag}
    (h : s.is.good = true → s.is.rest.head? ≠ some t.code) :
    ∃ s', (readType t).run s = some (false, s') ∧ s'.is.failbit = true ∧
      s'.stopParsePos = s.stopParsePos := by
  have hpeekRun : (onStream IStream.peek).run s =
      some ((s.is.peek).1, { s with is := (s.is.peek).2 }) := rfl
  unfold readType
  rw [StateT.run_bind, hpeekRun]
  cases hpeek : (s.is.peek).1 with
  | none => exact ⟨_, rfl, rfl, rfl⟩
  | some b =>
    have hne : b ≠ t.code := by
      rintro rfl
      unfold IStream.peek at hpeek
      split at hpeek
      · rename_i hg
        cases hhead : s.is.rest.head? with
        | none => simp [hhead] at hpeek
        | some b =>
          simp only [hhead, Option.some.injEq] at hpeek
          exact h hg (hpeek ▸ hhead)
      · cases hpeek
    simp only [Option.bind_eq_bind, Option.bind_some, if_neg hne]
    exact ⟨_, rfl, rfl, rfl⟩

/-- What every overload begins with. -/
theorem Goes.typed {t : TypeTag} {k : Bool → ReadM α} {old b : α} (hk : Goes m low (k true) P)
    (hfalse : k false = pure b) :
    Goes m low (do if ← checkStopParse then return old else readType t >>= k) fun v p a q =>
      if v.stopped p = true then a = old ∧ q = p else P v (p + 1) a q := by
  have hno (s : ReadState) (h : s.is.good = true → s.is.rest.head? ≠ some t.code) :
      Fails (readType t >>= k) s := by
    obtain ⟨s', hrun, hf, hstack⟩ := run_readType_of_ne h
    refine ⟨b, s', ?_, hf, hstack⟩
    rw [StateT.run_bind, hrun]
    show (k false).run s' = _
    rw [hfalse]
    rfl
  constructor
  · intro s hdeep hf
    refine (fails_checkStopParse hf).bind fun c t' hstack hf' => ?_
    cases c with
    | true => exact ⟨old, t', rfl, hf', rfl⟩
    | false => exact hno t' fun hg => by simp [IStream.good, hf'] at hg
  · intro s a t' hdeep hg hlow hrun
    rw [StateT.run_bind, stopped_view hg] at hrun
    cases hstop : s.view.stopped s.is.pos with
    | true =>
      rw [hstop] at hrun
      refine ((goes_pure old).runs s a t' hdeep hg hlow hrun).imp_right ?_
      rintro ⟨i, hi, rfl, hP, hlocal⟩
      refine ⟨i, hi, rfl, by rwa [if_pos rfl], fun e s' hagree => ?_⟩
      rw [Fails, StateT.run_bind, stopped_view hagree.good, hagree.stopped_eq, hstop]
      exact hlocal e s' hagree
    | false =>
      rw [hstop] at hrun
      have hrun' : (readType t >>= k).run s = some (a, t') := hrun
      by_cases hhead : s.is.rest.head? = some t.code
      · rw [StateT.run_bind, run_readType hg hstop hhead] at hrun'
        have hle : s.is.pos + 1 ≤ s.is.buf.length := by
          have hne : s.is.rest ≠ [] := by
            rintro hnil
            simp [hnil] at hhead
          have := List.length_pos_iff.mpr hne
          rw [IStream.length_rest] at this
          omega
        have hpos := ReadState.pos_advance_of_le hle
        refine (hk.runs (s.advance 1) a t' (hdeep.of_eq rfl) hg (by omega) hrun').imp_right ?_
        rintro ⟨i, hi, rfl, hP, hlocal⟩
        rw [hpos] at hi hP
        have hsum : s.is.pos + (1 + i) = s.is.pos + 1 + i := (Nat.add_assoc _ _ _).symm
        refine ⟨1 + i, hsum ▸ hi, s.advance_advance 1 i, ?_, fun e s' hagree => ?_⟩
        · rw [if_neg Bool.false_ne_true, hsum]
          exact hP
        have hstop' := hagree.stopped_eq.trans hstop
        rw [Fails, StateT.run_bind, stopped_view hagree.good, hstop']
        rcases Nat.lt_or_ge e (s.is.pos + 1) with hlt | hge
        · -- the tag is cut off
          refine ⟨fun _ => by omega, fun hend _ => ?_⟩
          refine hno s' fun _ => ?_
          have hnil : s'.is.rest = [] := by
            have := hagree.pos
            rw [IStream.rest, List.drop_eq_nil_iff]
            omega
          simp [hnil]
        · have hhead' : s'.is.rest.head? = some t.code := by
            have htake (l : List UInt8) : (l.take 1).head? = l.head? := by
              cases l <;> rfl
            rw [← hhead, ← htake s'.is.rest, hagree.bytes_eq hge, htake]
          obtain ⟨hsame, hcut⟩ := hlocal e _ (hagree.advance hge)
          rw [hpos] at hsame hcut
          have hnext : (readType t >>= k).run s' = (k true).run (s'.advance 1) := by
            rw [StateT.run_bind, run_readType hagree.good hstop' hhead']
            rfl
          refine ⟨fun hsize => ?_, fun hend hlt => ?_⟩
          · rw [← s'.advance_advance 1 i, ← hsame (by omega)]
            exact hnext
          · obtain ⟨a', t'', hrun'', hf', hstack'⟩ := hcut hend (by omega)
            exact ⟨a', t'', hnext.trans hrun'', hf', hstack'⟩
      · obtain ⟨a', t'', hrun'', hf', hstack'⟩ := hno s fun _ => hhead
        obtain ⟨-, rfl⟩ := Prod.mk.inj (Option.some.inj (hrun''.symm.trans hrun'))
        exact Or.inl ⟨hf', hstack'⟩

theorem run_checkStream_of_failR (hf : s.is.failbit = true) :
    (checkStream goodR failRead).run s =
      some (false, ⟨s.is.setFail, s.stopParsePos, .streamError⟩) := by
  have hbad : s.is.good = false := by
    simp [IStream.good, hf]
  have hset : s.is.setFail.good = false := by
    simp [IStream.good, IStream.setFail]
  simp [checkStream, goodR, failRead, hbad, hset]

theorem Goes.checkStream {b : α} (hr : Goes m low r P) :
    Goes m low (do if ← Serialize.checkStream goodR failRead then r else return b) P := by
  constructor
  · intro s hdeep hf
    refine ⟨b, ⟨s.is.setFail, s.stopParsePos, .streamError⟩, ?_, rfl, rfl⟩
    rw [StateT.run_bind, run_checkStream_of_failR hf]
    rfl
  · intro s a t hdeep hg hlow hrun
    rw [StateT.run_bind, run_checkStream_of_goodR hg] at hrun
    refine (hr.runs s a t hdeep hg hlow hrun).imp_right ?_
    rintro ⟨k, hk, rfl, hP, hlocal⟩
    refine ⟨k, hk, rfl, hP, fun e s' hagree => ?_⟩
    rw [Fails, StateT.run_bind, run_checkStream_of_goodR hagree.good]
    exact hlocal e s' hagree

/-- A size that is too large is an error. -/
theorem Goes.checkContainerSize {b : α} {n : ℕ} (hr : Goes m low r P) :
    Goes m low (do if ← Serialize.checkContainerSize failRead n then r else return b) P := by
  rcases Nat.lt_or_ge maxContainerSize n with hlong | hlen
  · have heq : (do if ← Serialize.checkContainerSize failRead n then r else return b) =
        (do failRead .containerTooMany; return b : ReadM α) := by
      simp [Serialize.checkContainerSize, hlong, not_le.mpr hlong]
    rw [heq]
    exact goes_failRead _ _
  · rw [checkContainerSize_of_le hlen, pure_bind, if_pos rfl]
    exact hr

theorem Goes.checkSlength {b : α} {n : ℕ} {lay : View → ℕ → ℕ}
    (hr : Goes m low r fun v p _ q => q = lay v p) (hzero : n = 0 → ∀ v p, lay v p = p) :
    Goes m low (do if ← Serialize.checkSlength failRead n then r else return b) fun v p _ q =>
      q = lay v p := by
  rcases Nat.lt_or_ge maxStringSize n with hlong | hlen
  · have hne : n ≠ 0 := by
      rintro rfl
      cases hlong
    have heq : (do if ← Serialize.checkSlength failRead n then r else return b) =
        (do failRead .stringTooLong; return b : ReadM α) := by
      simp [Serialize.checkSlength, hlong, hne, not_le.mpr hlong]
    rw [heq]
    exact goes_failRead _ _
  · rw [checkSlength_of_le hlen, pure_bind]
    by_cases hn : n = 0
    · rw [if_neg (by simp [hn])]
      refine (goes_pure b).mono ?_
      rintro v p a q ⟨-, rfl⟩
      exact (hzero hn v q).symm
    · rw [if_pos (by simp [hn])]
      exact hr

/-! ### The overloads for built-in types -/

theorem goes_literal (old : List UInt8) (size : ℕ) :
    Goes m low (readLiteral old size false) fun v p a q => q = v.skip size p ∧
      (v.stopped p = true → a = old) ∧ (v.stopped p = false → a = v.bytes size p) := by
  have hread : Goes m low (readLiteral old size false) _ := (goes_internal old size).unlessStopped
  refine hread.mono fun v p a q h => ?_
  cases hstop : v.stopped p with
  | true =>
    rw [hstop, if_pos rfl] at h
    simp [View.skip, hstop, h.1, h.2]
  | false =>
    rw [hstop, if_neg Bool.false_ne_true] at h
    simpa [hstop] using h

theorem goes_size : Goes m low readSize fun v p size q => size = v.sizeAt p ∧ q = v.skip 2 p := by
  refine ((goes_literal (u16 0) 2).bind fun size => goes_pure (ofU16 size)).mono ?_
  rintro v p size q ⟨bytes, mid, ⟨rfl, hold, hnew⟩, rfl, rfl⟩
  refine ⟨?_, rfl⟩
  unfold View.sizeAt
  cases hstop : v.stopped p with
  | true =>
    rw [hold hstop]
    rfl
  | false => rw [hnew hstop, if_neg Bool.false_ne_true]

variable {lay : View → ℕ → ℕ}

theorem Goes.tagged {t : TypeTag} {k : Bool → ReadM α} {old b : α}
    (hk : Goes m low (k true) fun v p _ q => q = lay v p) (hfalse : k false = pure b) :
    Goes m low (do if ← checkStopParse then return old else readType t >>= k) fun v p _ q =>
      q = v.tagged (lay v) p := by
  refine (Goes.typed hk hfalse).mono fun v p a q h => ?_
  unfold View.tagged
  split at h
  · rename_i hstop
    rw [if_pos hstop]
    exact h.2
  · rename_i hstop
    rw [if_neg hstop]
    exact h

/-- Behind a tag: the size, then what it says. -/
theorem Goes.counted {t : TypeTag} {k : ℕ → ReadM α} {old b b' : α}
    {next : View → ℕ → ℕ → ℕ} (hk : ∀ size, Goes m low (k size) fun v p _ q => q = next v size p) :
    Goes m low (do
      if ← checkStopParse then
        return old
      if ← readType t then
        let size ← readSize
        if ← Serialize.checkStream goodR failRead then
          k size
        else
          return b
      else
        return b') fun v p _ q => q = v.counted (next v) p := by
  have hbody : Goes m low (do
      let size ← readSize
      if ← Serialize.checkStream goodR failRead then
        k size
      else
        return b) fun v p _ q => q = next v (v.sizeAt p) (v.skip 2 p) := by
    refine (goes_size.bind fun size => (hk size).checkStream).mono ?_
    rintro v p a q ⟨size, mid, ⟨rfl, rfl⟩, rfl⟩
    rfl
  exact Goes.tagged (k := fun found => if found = true then _ else pure b') hbody rfl

theorem goes_tagged (old : List UInt8) (size : ℕ) :
    Goes m low (readLiteral old size true) fun v p _ q => q = v.tagged (v.skip size) p :=
  Goes.tagged ((goes_internal old size).mono fun _ _ _ _ h => h.1) rfl

theorem goes_string (old : List UInt8) :
    Goes m low (readString old) fun v p _ q => q = v.counted v.skip p := by
  refine Goes.counted fun size => Goes.checkSlength ?_ ?_
  · exact (goes_internal _ _).mono fun _ _ _ _ h => h.1
  · rintro rfl v p
    simp [View.skip]

theorem goes_chars (old : List UInt8) (maxLen : ℕ) :
    Goes m low (readChars old maxLen) fun v p _ q => q = v.counted v.skip p := by
  refine Goes.counted fun size => Goes.checkSlength ?_ ?_
  · split
    · exact goes_failRead _ _
    · exact Goes.map ((goes_internal _ _).mono fun _ _ _ _ h => h.1)
  · rintro rfl v p
    simp [View.skip]

theorem goes_loop {body : β → ReadM β} (hbody : ∀ b, Goes m low (body b) fun v p _ q => q = lay v p)
    (size : ℕ) (b : β) : Goes m low (readLoop body size b) fun v p _ q => q = (lay v)^[size] p := by
  induction size generalizing b with
  | zero => exact (goes_pure b).mono fun _ _ _ _ h => h.2
  | succ size ih =>
    refine ((hbody b).bind fun b' => ih b').mono ?_
    rintro v p c q ⟨_, mid, rfl, rfl⟩
    rfl

theorem goes_wstring (old : List UInt32) :
    Goes m low (readWString old) fun v p _ q =>
      q = v.counted (fun size => (v.skip 2)^[size]) p := by
  refine Goes.counted fun size => ?_
  have hloop : Goes m low (readLoop (fun s => do return s ++ [wideChar (← readInternal [0, 0] 2)])
      size []) fun v p _ q => q = (v.skip 2)^[size] p :=
    goes_loop (fun s => ((goes_internal _ _).mono fun _ _ _ _ h => h.1).map) size []
  refine hloop.checkSlength ?_
  rintro rfl v p
  rfl

theorem goes_container {tag : TypeTag} {old empty : β} {body : β → ReadM β}
    (hbody : ∀ b, Goes m low (body b) fun v p _ q => q = lay v p) :
    Goes m low (readContainer tag old empty body) fun v p _ q =>
      q = v.counted (fun size => (lay v)^[size]) p :=
  Goes.counted fun size => Goes.checkContainerSize (goes_loop hbody size empty)

end Goes

end Serialize

end AsyncSqlite
