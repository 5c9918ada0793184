import AsyncSqlite.Remote.Channel
import AsyncSqlite.Serialize.Bounds
import AsyncSqlite.Remote.Invoke

/-!
# AsyncSqlite.Remote.Message — one message from its sender to its target

The arguments of a call as `Serializer::Write` puts them, in a datagram as
`LinuxUdpTransport::Send` makes it and `Receive` takes it apart, as
`DelegateRemote::Invoke` reads them. `Send` cuts the length of the payload to 16
bits, so less than the payload may arrive; then the target is not called.
-/

namespace AsyncSqlite

universe u

open Serialize

/-! ## The arguments of a call -/

section Arguments

variable {C : Type u}

/-- Arguments of the types that a signature has. -/
structure Arguments (cls : Classes C) (fields : List (Serialize.Field C)) where
  vals : List Val
  typed : List.Forall₂ (Serialize.Field.Typed (cls.Typed maxParseStackDepth)) fields vals

/-- How each of the arguments is written. -/
def argWriters (cls : Classes C) : (fields : List (Serialize.Field C)) → (vs : List Val) →
    List.Forall₂ (Serialize.Field.Typed (cls.Typed maxParseStackDepth)) fields vs → List ArgWriter
  | [], _, _ => []
  | _ :: _, [], _ => []
  | f :: fields, v :: vs, h =>
    .ofField cls maxParseStackDepth f v (List.forall₂_cons.mp h).1 ::
      argWriters cls fields vs (List.forall₂_cons.mp h).2

def Arguments.writers {cls : Classes C} {fields : List (Serialize.Field C)}
    (args : Arguments cls fields) : List ArgWriter :=
  argWriters cls fields args.vals args.typed

/-- The wire format of a list of arguments. -/
abbrev ArgsEncode (cls : Classes C) : List (Serialize.Field C) → List Val → List UInt8 → Prop :=
  Members (Serialize.Field.Encodes (cls.Encodes maxParseStackDepth))

variable {cls : Classes C} {fields : List (Serialize.Field C)}

theorem write_ofField {f : Serialize.Field C} {v : Val}
    (hv : Serialize.Field.Typed (cls.Typed maxParseStackDepth) f v) (os : OStream) :
    ((ArgWriter.ofField cls maxParseStackDepth f v hv).write os).2 = false ∧
      (((ArgWriter.ofField cls maxParseStackDepth f v hv).write os).1.failbit = false →
        os.failbit = false ∧ ∃ bs,
          Serialize.Field.Encodes (cls.Encodes maxParseStackDepth) f v bs ∧
          ((ArgWriter.ofField cls maxParseStackDepth f v hv).write os).1 = os.put bs) := by
  have hvalid : Serialize.Field.Valid (cls.Valid maxParseStackDepth) f v :=
    .typed (hv.mono fun _ _ => Serialize.Classes.Typed.valid)
  rcases writes_write cls hvalid ⟨os, .none⟩ with ⟨w, hrun, hw⟩
  have hwrite : (ArgWriter.ofField cls maxParseStackDepth f v hv).write os = (w.os, false) := by
    simp only [ArgWriter.ofField, hrun]
  rw [hwrite]
  refine ⟨rfl, ?_⟩
  intro hgood
  rcases hw hgood with ⟨hstart, bs, hbs, rfl⟩
  exact ⟨hstart, bs, hbs, rfl⟩

/-- The arguments are written one behind the other. -/
theorem writeArgs_argWriters {vs : List Val}
    (h : List.Forall₂ (Serialize.Field.Typed (cls.Typed maxParseStackDepth)) fields vs)
    (os : OStream) :
    (writeArgs (argWriters cls fields vs h) os).2 = false ∧
      ((writeArgs (argWriters cls fields vs h) os).1.failbit = false →
        os.failbit = false ∧ ∃ bs, ArgsEncode cls fields vs bs ∧
          (writeArgs (argWriters cls fields vs h) os).1 = os.put bs) := by
  induction fields generalizing vs os with
  | nil =>
    cases h
    refine ⟨rfl, ?_⟩
    intro hgood
    exact ⟨hgood, [], .nil, OStream.put_nil.symm⟩
  | cons f fields ih =>
    cases vs with
    | nil => cases h
    | cons v vs =>
      rcases List.forall₂_cons.mp h with ⟨hf, hrest⟩
      rcases write_ofField hf os with ⟨hthrew, hfirst⟩
      rcases hwrite : (ArgWriter.ofField cls maxParseStackDepth f v hf).write os with ⟨os₁, threw⟩
      rw [hwrite] at hthrew hfirst
      cases hthrew
      have hargs : writeArgs (argWriters cls (f :: fields) (v :: vs) h) os =
          writeArgs (argWriters cls fields vs hrest) os₁ := by
        simp only [argWriters, writeArgs, hwrite]
      rw [hargs]
      rcases ih hrest os₁ with ⟨hthrew', hlater⟩
      refine ⟨hthrew', ?_⟩
      intro hgood
      rcases hlater hgood with ⟨hgood₁, bs', hbs', heq'⟩
      rcases hfirst hgood₁ with ⟨hstart, bs, hbs, rfl⟩
      refine ⟨hstart, bs ++ bs', .cons hbs hbs', ?_⟩
      rw [heq', OStream.put_put]

/-- What is written for a call is the wire format of its arguments. -/
theorem encodes_of_written {os : OStream} (args : Arguments cls fields)
    (hgood : (serializerWrite os args.writers).1.failbit = false) :
    (serializerWrite os args.writers).2 = false ∧
      ArgsEncode cls fields args.vals (serializerWrite os args.writers).1.buf := by
  rcases writeArgs_argWriters args.typed ((os.seekp 0).str []) with ⟨hthrew, hput⟩
  rcases hput hgood with ⟨-, bs, hbs, heq⟩
  refine ⟨hthrew, ?_⟩
  have hbuf : (((os.seekp 0).str []).put bs).buf = bs := by
    simp [OStream.put, OStream.str, overwrite]
  have hwritten : (serializerWrite os args.writers).1 = ((os.seekp 0).str []).put bs := heq
  rw [hwritten, hbuf]
  exact hbs

/-! ## `Invoke` -/

/-- A target is called with the arguments that were sent, if all of them arrive,
and not at all otherwise. -/
theorem invokeFrom_spec {d : DelegateRemote} (hd : d.serializer = true) {vs : List Val}
    (hvs : List.Forall₂ (Serialize.Field.Typed (cls.Typed maxParseStackDepth)) fields vs)
    {bs pre : List UInt8} (hbs : ArgsEncode cls fields vs bs) (hpre : pre <+: bs)
    (vars : List Val) :
    ∃ r, d.invokeFrom cls fields vars (IStream.open_ pre) = some r ∧
      r.delegate.serializer = true ∧ r.called = if pre = bs then some vs else none := by
  have hopen : (IStream.open_ pre).good = true := rfl
  cases hf : fields with
  | nil =>
    subst hf
    cases hvs
    cases hbs
    have hnil : pre = [] := List.prefix_nil.mp hpre
    refine ⟨⟨d, [], some [], some true⟩, ?_, hd, ?_⟩
    · simp [DelegateRemote.invokeFrom, hd, hopen]
    · simp [hnil]
  | cons f fs =>
    rw [← hf]
    have hsome : fields.isEmpty = false := by
      simp [hf]
    by_cases heq : pre = bs
    · subst heq
      have hread : (readArguments cls fields vars).run ⟨IStream.open_ pre, [], .none⟩ =
          some (vs, (ReadState.mk (IStream.open_ pre) [] .none).advance pre.length) := by
        have hself : receivedMembers cls Serialize.Field.keep
            (received cls Serialize.Field.keep maxParseStackDepth) fields vars vs = vs :=
          receivedMembers_self (fun _ old _ h => received_self h old) hvs vars
        have hrun : (readArguments cls fields vars).run ⟨IStream.open_ pre, [], .none⟩ =
            some (_, _) :=
          (reads_object cls.versions_self (Nat.le_succ _)).readArgs hbs vars
            ⟨IStream.open_ pre, [], .none⟩ [] rfl (by simp [IStream.rest, IStream.open_])
            (by simp [ReadState.Room]) (Nat.le_refl _)
        rw [hself] at hrun
        exact hrun
      refine ⟨⟨d, [], some vs, some true⟩, ?_, hd, ?_⟩
      · have hgood : ((ReadState.mk (IStream.open_ pre) [] .none).advance pre.length).is.failbit =
            false := rfl
        simp [DelegateRemote.invokeFrom, hd, hopen, hsome, hread, hgood]
      · rw [if_pos rfl]
    · rcases fails_readArguments (e := .none) hbs hpre heq vars with ⟨read, s, hread, hfail, -⟩
      refine ⟨d.refuseRead, ?_, ?_, ?_⟩
      · simp [DelegateRemote.invokeFrom, hd, hopen, hsome, hread, hfail]
      · unfold DelegateRemote.refuseRead DelegateRemote.refuse
        split
        · exact hd
        · exact hd
      · rw [if_neg heq]
        unfold DelegateRemote.refuseRead DelegateRemote.refuse
        split
        · rfl
        · rfl

end Arguments

/-! ## Datagrams -/

namespace UdpTransport

/-- The datagram of a message holds its header and a part of its payload, all of it
if that is short enough. -/
theorem send_spec {t : UdpTransport} {payload datagram : List UInt8} {header : DmqHeader}
    (hsend : t.send payload header = some datagram) :
    ∃ n : UInt16, n.toNat ≤ bufferSize - DmqHeader.headerSize ∧
      datagram = { header with length := n }.bytes ++ payload.take n.toNat ∧
      (payload.length < 65536 → payload.take n.toNat = payload) := by
  unfold send at hsend
  dsimp only at hsend
  split_ifs at hsend with hrole hsocket hlen
  refine ⟨UInt16.ofNat payload.length, by omega, (Option.some.inj hsend).symm, ?_⟩
  intro hsmall
  apply List.take_of_length_le
  rw [UInt16.toNat_ofNat_of_lt' hsmall]

/-- `Receive` finds again what `Send` put into the datagram. -/
theorem receive_spec {t : UdpTransport} (ht : t.recvTransport = .self) {header : DmqHeader}
    (hmark : header.marker = DmqHeader.markerValue) {body : List UInt8}
    (hlen : body.length ≤ header.length.toNat)
    (hmax : header.length.toNat ≤ bufferSize - DmqHeader.headerSize) :
    (t.receive (header.bytes ++ body)).code = 0 ∧
      (t.receive (header.bytes ++ body)).header = some header ∧
      (t.receive (header.bytes ++ body)).payload = body := by
  have hbody : (body.take (bufferSize - DmqHeader.headerSize)).take header.length.toNat =
      body := by
    rw [List.take_of_length_le (by omega : body.length ≤ _), List.take_of_length_le hlen]
  unfold receive
  rw [parse_take]
  simp [ht, hmark, hbody]

end UdpTransport

end AsyncSqlite
