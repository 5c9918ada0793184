import AsyncSqlite.Remote.Delegate
import AsyncSqlite.Serialize.Bounds
import AsyncSqlite.Serialize.RoundTrip

/-!
# AsyncSqlite.Remote.Invoke — a message arrives at its target

`Serializer::Read` and `DelegateRemote::Invoke`, which reads the arguments from the
payload and calls the bound function. Any part of a payload that is cut off ends
in an error and not in a call (`invoke_truncated`): the read of the whole payload
ends at its last byte, so by `Goes` the read of less fails.

Exceptions are enabled, and the target and the error handler are taken to return.
-/

namespace AsyncSqlite

universe u

open Serialize

/-! ## The arguments -/

section Arguments

variable {C : Type u} (cls : Classes C)

/-- `Serializer::Write` with the serializer for `args`: the stream is emptied, then
they are written in order. -/
def writeArguments (fields : List (Serialize.Field C)) (args : List Val) : WriteM Unit := do
  modify fun s => { s with os := (s.os.seekp 0).str [] }
  writeMembers (writeObject cls maxParseStackDepth) fields args

/-- `Serializer::Read`, into variables that hold `args`. -/
def readArguments (fields : List (Serialize.Field C)) (args : List Val) : ReadM (List Val) :=
  readMembers cls (readObject cls (maxParseStackDepth + 1)) fields args

end Arguments

/-! ## `Invoke` -/

/-- What `Invoke` did. -/
structure Invoked where
  delegate : DelegateRemote
  /-- what the error handler was called with -/
  reported : List DelegateError
  /-- what the target was called with -/
  called : Option (List Val)
  /-- `none` for an exception -/
  returned : Option Bool

namespace DelegateRemote

/-- `RaiseError(m_id, error); return result;` outside the `try` block. -/
def refuse (d : DelegateRemote) (error : DelegateError) (result : Bool) : Invoked :=
  { delegate := { d with error := error }
    reported := if d.errorHandler then [error] else []
    called := none
    returned := if d.errorHandler then some result else none }

/-- `RaiseError(m_id, ERR_DESERIALIZE)` inside the `try` block: what it throws is
caught, and raised again as another error. -/
def refuseRead (d : DelegateRemote) : Invoked :=
  if d.errorHandler then d.refuse .errDeserialize true else d.refuse .errDeserializeException true

/-- `Invoke(is)`; `args` are the variables of the arguments. `none` is a failed
`ASSERT_TRUE` of the reader. -/
def invokeFrom {C : Type u} (d : DelegateRemote) (cls : Classes C)
    (fields : List (Serialize.Field C)) (args : List Val) (is : IStream) : Option Invoked :=
  if !d.serializer then some (d.refuse .errNoSerializer false)
  else if !is.good then some (d.refuse .errStreamNotGood false)
  else if fields.isEmpty then some ⟨d, [], some [], some true⟩
  else do
    let (args, s) ← (readArguments cls fields args).run ⟨is, [], .none⟩
    if s.is.failbit then return d.refuseRead
    else return ⟨d, [], some args, some true⟩

end DelegateRemote

/-! ## A payload that is cut off -/

section Truncated

variable {C : Type u} {cls : Classes C} {fields : List (Serialize.Field C)} {vs : List Val}

/-- The payload is the wire format of the arguments. -/
theorem writes_arguments
    (hv : List.Forall₂ (Serialize.Field.Valid (cls.Valid maxParseStackDepth)) fields vs)
    (os : OStream) (e : ParsingError) :
    ∃ w, (writeArguments cls fields vs).run ⟨os, e⟩ = some ((), w) ∧ (w.os.good = true →
      Members (Serialize.Field.Encodes (cls.Encodes maxParseStackDepth)) fields vs w.os.buf) := by
  obtain ⟨w, hrun, hw⟩ := writes_members (writes_object cls maxParseStackDepth) hv
    ⟨(os.seekp 0).str [], e⟩
  refine ⟨w, hrun, fun hgood => ?_⟩
  obtain ⟨-, bs, hbs, rfl⟩ := hw (OStream.good_eq_true.mp hgood)
  have hbuf : (((os.seekp 0).str []).put bs).buf = bs := by
    simp [OStream.put, OStream.str, overwrite]
  rw [WriteState.put, hbuf]
  exact hbs

/-- Less than the whole wire format of the arguments is not read. -/
theorem fails_readArguments {bs pre : List UInt8} {e : ParsingError}
    (h : Members (Serialize.Field.Encodes (cls.Encodes maxParseStackDepth)) fields vs bs)
    (hpre : pre <+: bs) (hne : pre ≠ bs) (args : List Val) :
    Fails (readArguments cls fields args) ⟨IStream.open_ pre, [], e⟩ := by
  have hlt : pre.length < bs.length :=
    lt_of_le_of_ne hpre.length_le fun heq => hne (hpre.eq_of_length heq)
  have hdeep : (ReadState.mk (IStream.open_ bs) [] e).Deep (maxParseStackDepth + 1) :=
    ⟨Nat.zero_le _, show maxParseStackDepth < 0 + (maxParseStackDepth + 1) by omega⟩
  have hwhole : (readArguments cls fields args).run ⟨IStream.open_ bs, [], e⟩ = some (_, _) :=
    (reads_object cls.versions_self (Nat.le_succ _)).readArgs h args ⟨IStream.open_ bs, [], e⟩ []
      rfl (by simp [IStream.rest, IStream.open_]) (by simp [ReadState.Room]) (Nat.le_refl _)
  have hagree : (ReadState.mk (IStream.open_ bs) [] e).Agrees pre.length
      ⟨IStream.open_ pre, [], e⟩ := by
    obtain ⟨tail, rfl⟩ := hpre
    exact ⟨rfl, rfl, rfl, hlt.le, Nat.le_refl _, by simp [IStream.open_]⟩
  rcases ((goes_object cls (maxParseStackDepth + 1) 0).readMembers fields args).runs _ _ _ hdeep
    rfl (Nat.zero_le _) hwhole with ⟨hf, -⟩ | ⟨k, hk, hend, -, hlocal⟩
  · cases hf
  · -- the whole payload was read, so the cut is before the end of the read
    have hposk := ReadState.pos_advance_of_le hk
    have hposb : ((ReadState.mk (IStream.open_ bs) [] e).advance bs.length).is.pos =
        0 + bs.length :=
      ReadState.pos_advance_of_le (s := ⟨IStream.open_ bs, [], e⟩) (by simp [IStream.open_])
    have hkb : (ReadState.mk (IStream.open_ bs) [] e).is.pos + k = 0 + bs.length := by
      rw [← hposk, ← hposb, hend]
    exact (hlocal pre.length _ hagree).2 rfl (by omega)

/-- Whatever part of the payload is missing at its end, `Read` leaves failbit set
and `Invoke` reports an error and does not call the target. -/
theorem invoke_truncated
    (hv : List.Forall₂ (Serialize.Field.Valid (cls.Valid maxParseStackDepth)) fields vs)
    (os : OStream) :
    ∃ w, (writeArguments cls fields vs).run ⟨os, .none⟩ = some ((), w) ∧ (w.os.good = true →
      ∀ pre : List UInt8, pre <+: w.os.buf → pre ≠ w.os.buf → ∀ args : List Val,
        (∃ read s, (readArguments cls fields args).run ⟨IStream.open_ pre, [], .none⟩ =
          some (read, s) ∧ s.is.failbit = true) ∧
        ∀ d : DelegateRemote, d.serializer = true →
          ∃ r, d.invokeFrom cls fields args (IStream.open_ pre) = some r ∧ r.called = none ∧
            r.delegate.error =
              (if d.errorHandler then .errDeserialize else .errDeserializeException) ∧
            r.reported = (if d.errorHandler then [.errDeserialize] else []) ∧
            r.returned = (if d.errorHandler then some true else none)) := by
  obtain ⟨w, hrun, hw⟩ := writes_arguments hv os .none
  refine ⟨w, hrun, fun hgood pre hpre hne args => ?_⟩
  obtain ⟨read, s, hread, hf, -⟩ := fails_readArguments (hw hgood) hpre hne args (e := .none)
  refine ⟨⟨read, s, hread, hf⟩, fun d hd => ?_⟩
  -- without arguments there is no payload to cut
  have hfields : fields ≠ [] := by
    rintro rfl
    have hbuf : w.os.buf = [] := by
      generalize w.os.buf = bs at hw
      cases hw hgood
      rfl
    rw [hbuf] at hpre hne
    exact hne (List.prefix_nil.mp hpre)
  have hinvoke : d.invokeFrom cls fields args (IStream.open_ pre) = some d.refuseRead := by
    have hopen : (IStream.open_ pre).good = true := rfl
    have hsome : fields.isEmpty = false := by
      simpa using hfields
    simp [DelegateRemote.invokeFrom, hd, hopen, hsome, hread, hf]
  refine ⟨_, hinvoke, ?_⟩
  unfold DelegateRemote.refuseRead DelegateRemote.refuse
  split <;> simp [*]

end Truncated

/-- A name and a shape, of which the first nine bytes arrive. -/
theorem invoke_truncated_shape : ∃ w,
    (writeArguments demo [.string, .object .shape] [.string [65], shape 3]).run
        ⟨OStream.fresh, .none⟩ = some ((), w) ∧ w.os.good = true ∧
      ∃ r, (DelegateRemote.mk 7 true none none true 0 .success).invokeFrom demo
          [.string, .object .shape] [.string [], .object []]
          (IStream.open_ (w.os.buf.take 9)) = some r ∧
        r.called = none ∧ r.reported = [.errDeserialize] := by
  have hshape : demo.Typed maxParseStackDepth .shape (shape 3) := shape_typed 3
  have hvalid : List.Forall₂ (Serialize.Field.Valid (demo.Valid maxParseStackDepth))
      [.string, .object .shape] [.string [65], shape 3] :=
    .cons (.typed .string) (.cons (.typed (.object hshape.valid)) .nil)
  obtain ⟨w, hrun, hw⟩ := invoke_truncated hvalid OStream.fresh
  have hgood : w.os.good = true ∧ 9 < w.os.buf.length := by
    have hany : ((writeArguments demo [.string, .object .shape] [.string [65], shape 3]).run
        ⟨OStream.fresh, .none⟩).any (fun r => r.2.os.good && decide (9 < r.2.os.buf.length)) =
          true := by
      decide +kernel
    rw [hrun] at hany
    simpa using hany
  have hne : w.os.buf.take 9 ≠ w.os.buf := by
    intro heq
    have hlen := congrArg List.length heq
    rw [List.length_take] at hlen
    omega
  obtain ⟨-, hinvoke⟩ := hw hgood.1 _ (List.take_prefix 9 _) hne [.string [], .object []]
  obtain ⟨r, hr, hcalled, -, hreported, -⟩ := hinvoke (DelegateRemote.mk 7 true none none true 0
    .success) rfl
  exact ⟨w, hrun, hgood.1, r, hr, hcalled, hreported⟩

end AsyncSqlite
