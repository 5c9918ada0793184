import AsyncSqlite.Remote.Delegate
import AsyncSqlite.Serialize.Write

/-!
# AsyncSqlite.Remote.Channel — what an invocation leaves for the next one

`RemoteChannel` owns a stream, a dispatcher with a transport and the delegate
that uses both; `m_sendMutex` lets one invocation run at a time. So a run is a
list of invocations, each of which starts from what the one before left in the
delegate.

`Serializer::Write` resets the contents of the stream and
`Dispatcher::Dispatch` its error bits too, but only for an invocation that gets
that far: `failbit_after` says which invocations leave a failed stream behind.
-/

namespace AsyncSqlite

universe u

/-! ## Arguments of the in-tree serializer -/

/-- An argument of a type that `serialize` supports. -/
def ArgWriter.ofField {C : Type u} (cls : Serialize.Classes C) (n : ℕ) (f : Serialize.Field C)
    (v : Serialize.Val) (hv : Serialize.Field.Typed (cls.Typed n) f v) : ArgWriter where
  write os :=
    match (Serialize.write cls n f v).run ⟨os, .none⟩ with
    | some r => (r.2.os, false)
    | none => (os, true)
  sticky os hf := by
    have hvalid : Serialize.Field.Valid (cls.Valid n) f v :=
      .typed (hv.mono fun _ _ => Serialize.Classes.Typed.valid)
    obtain ⟨w, hrun, hw⟩ := Serialize.writes_write cls hvalid ⟨os, .none⟩
    rw [hrun]
    cases hgood : w.os.failbit with
    | true => rfl
    | false =>
      -- a writer that leaves the stream good started from a good one
      have hstart : os.failbit = false := (hw hgood).1
      rw [hf] at hstart
      cases hstart

namespace RemoteCall

/-- The arguments serialise on a fresh stream. -/
def Serialises (call : RemoteCall) : Prop :=
  (serializerWrite OStream.fresh call.args).2 = false ∧
    (serializerWrite OStream.fresh call.args).1.good = true

/-- Serialising the arguments on a fresh stream does not set failbit; it may
throw. -/
def KeepsStream (call : RemoteCall) : Prop :=
  (serializerWrite OStream.fresh call.args).1.failbit = false

instance (call : RemoteCall) : Decidable call.Serialises :=
  inferInstanceAs (Decidable (_ ∧ _))

instance (call : RemoteCall) : Decidable call.KeepsStream :=
  inferInstanceAs (Decidable (_ = _))

/-- The bytes that the arguments are on a fresh stream. -/
def payload (call : RemoteCall) : List UInt8 := (serializerWrite OStream.fresh call.args).1.buf

end RemoteCall

namespace DelegateRemote

/-- The delegate of a channel whose stream is `os`. -/
structure Wired (d : DelegateRemote) (os : OStream) : Prop where
  serializer : d.serializer = true
  stream : d.stream = some os
  dispatcher : d.dispatcher = some ⟨true⟩

/-- The delegate as the constructor of `RemoteChannel` leaves it. -/
def channel (id : DelegateRemoteId) (errorHandler : Bool) : DelegateRemote where
  id := id
  serializer := true
  stream := some OStream.fresh
  dispatcher := some ⟨true⟩
  errorHandler := errorHandler
  lastSeqNum := 0
  error := .success

/-- The delegate after these invocations. -/
def after (d : DelegateRemote) (calls : List RemoteCall) : DelegateRemote :=
  calls.foldl (fun d call => (d.invoke call).delegate) d

/-- The payload reaches the transport as it is on a fresh stream. -/
def Delivers (d : DelegateRemote) (call : RemoteCall) : Prop :=
  (d.invoke call).handed.map Prod.snd = some call.payload

variable {d : DelegateRemote} {os : OStream} {call : RemoteCall}

theorem wired_channel (id : DelegateRemoteId) (errorHandler : Bool) :
    (channel id errorHandler).Wired OStream.fresh :=
  ⟨rfl, rfl, rfl⟩

/-- An invocation that fails before the dispatcher leaves the stream as the
serializer left it. -/
theorem Wired.invoke_of_failed (h : d.Wired os) {os' : OStream} {threw : Bool}
    (hwrite : serializerWrite os call.args = (os', threw))
    (hfail : threw = true ∨ os'.failbit = true) :
    (d.invoke call).handed = none ∧ (d.invoke call).delegate.Wired os' := by
  obtain ⟨id, _, _, _, handler, last, error⟩ := d
  obtain ⟨rfl, rfl, rfl⟩ := h
  cases threw with
  | true =>
    simp only [invoke, hwrite, if_true]
    exact ⟨rfl, rfl, rfl, rfl⟩
  | false =>
    have hbad : os'.failbit = true := hfail.resolve_left Bool.false_ne_true
    simp only [invoke, hwrite, OStream.good, hbad]
    exact ⟨rfl, rfl, rfl, rfl⟩

/-- An invocation that reaches the dispatcher leaves a good stream, however
`Send` ends. -/
theorem Wired.invoke_of_written (h : d.Wired os) {os' : OStream}
    (hwrite : serializerWrite os call.args = (os', false)) (hgood : os'.failbit = false) :
    (d.invoke call).handed = some (DmqHeader.make d.id call.seqNum, os'.buf) ∧
      ∃ os'', (d.invoke call).delegate.Wired os'' ∧ os''.failbit = false := by
  obtain ⟨id, _, _, _, handler, last, error⟩ := d
  obtain ⟨rfl, rfl, rfl⟩ := h
  have hreset : (((os'.str []).clear).seekp 0) = OStream.fresh :=
    @OStream.seekp_of_le ((os'.str []).clear) rfl 0 (Nat.zero_le _)
  cases hsend : call.send with
  | returned err =>
    simp only [invoke, hwrite, OStream.good, hgood, Dispatcher.dispatch, hsend, hreset, if_true,
      Bool.false_eq_true, if_false, Bool.not_false, Bool.not_true, Option.some.injEq]
    split
    · exact ⟨rfl, OStream.fresh, ⟨rfl, rfl, rfl⟩, rfl⟩
    · exact ⟨rfl, OStream.fresh, ⟨rfl, rfl, rfl⟩, rfl⟩
  | threw =>
    simp only [invoke, hwrite, OStream.good, hgood, Dispatcher.dispatch, hsend]
    exact ⟨rfl, os', ⟨rfl, rfl, rfl⟩, hgood⟩

/-- The stream is failed after an invocation exactly if the serializer left it
so. -/
theorem Wired.invoke (h : d.Wired os) (call : RemoteCall) :
    ∃ os', (d.invoke call).delegate.Wired os' ∧
      os'.failbit = (serializerWrite os call.args).1.failbit := by
  rcases hwrite : serializerWrite os call.args with ⟨os', threw⟩
  cases hfail : threw || os'.failbit with
  | true =>
    rw [Bool.or_eq_true] at hfail
    exact ⟨os', (h.invoke_of_failed hwrite hfail).2, rfl⟩
  | false =>
    rw [Bool.or_eq_false_iff] at hfail
    obtain ⟨rfl, hgood⟩ := hfail
    obtain ⟨-, os'', hwired, hgood'⟩ := h.invoke_of_written hwrite hgood
    exact ⟨os'', hwired, hgood'.trans hgood.symm⟩

/-- The failbit that is found by the next invocation: set by the first one whose
arguments set it, and never cleared again. -/
theorem Wired.after (h : d.Wired os) (calls : List RemoteCall) :
    ∃ os', (d.after calls).Wired os' ∧ (os'.failbit = false ↔
      os.failbit = false ∧ ∀ call ∈ calls, call.KeepsStream) := by
  induction calls generalizing d os with
  | nil =>
    refine ⟨os, h, ?_⟩
    simp
  | cons call calls ih =>
    obtain ⟨os₁, hwired, hfail⟩ := h.invoke call
    obtain ⟨os', hlast, hiff⟩ := ih hwired
    refine ⟨os', hlast, hiff.trans ?_⟩
    rw [hfail, List.forall_mem_cons, ← and_assoc]
    refine and_congr_left fun _ => ?_
    cases hg : os.failbit with
    | true =>
      rw [serializerWrite_of_fail hg]
      simp
    | false =>
      rw [serializerWrite_of_good hg]
      simp [RemoteCall.KeepsStream]

/-- What one invocation delivers: its own bytes, if the stream is good. -/
theorem Wired.delivers_iff (h : d.Wired os) (hcall : call.Serialises) :
    d.Delivers call ↔ os.failbit = false := by
  obtain ⟨hthrew, hgood⟩ := hcall
  rw [OStream.good_eq_true] at hgood
  unfold Delivers
  cases hg : os.failbit with
  | true =>
    have hbad := serializerWrite_of_fail hg call.args
    rcases hwrite : serializerWrite os call.args with ⟨os', threw⟩
    rw [hwrite] at hbad
    rw [(h.invoke_of_failed hwrite (Or.inr hbad)).1]
    simp
  | false =>
    have hwrite : serializerWrite os call.args =
        ((serializerWrite OStream.fresh call.args).1, false) := by
      rw [serializerWrite_of_good hg, ← hthrew]
    rw [(h.invoke_of_written hwrite hgood).1]
    simp [RemoteCall.payload]

end DelegateRemote

open DelegateRemote

/-- The bytes of an invocation `call` that follows `before`, and whose arguments
serialise on a fresh stream, reach the transport just when no invocation before it
left failbit set, the ones that only threw and the ones whose dispatch failed not
counted. -/
theorem delivered_iff (id : DelegateRemoteId) (errorHandler : Bool) (before : List RemoteCall)
    (call : RemoteCall) :
    (call.Serialises → ((channel id errorHandler).after before).Delivers call) ↔
      (call.Serialises → ∀ earlier ∈ before, earlier.KeepsStream) := by
  obtain ⟨os, hwired, hiff⟩ := (wired_channel id errorHandler).after before
  refine forall_congr' fun hcall => ?_
  rw [hwired.delivers_iff hcall, hiff]
  simp [OStream.fresh]

/-! ## A vector that is too long, then one that is not -/

/-- A program without user classes. -/
def noClasses : Serialize.Classes Empty := ⟨nofun, nofun, fun _ => []⟩

/-- An argument of type `std::vector<uint8_t>`. -/
def byteVector (l : List UInt8) : ArgWriter :=
  .ofField noClasses 0 (.vector (.literal 1)) (.items (l.map fun b => .literal [b])) <| by
    refine .vector fun v hv => ?_
    obtain ⟨b, -, rfl⟩ := List.mem_map.mp hv
    exact .literal Nat.one_pos rfl

instance (d : DelegateRemote) (call : RemoteCall) : Decidable (d.Delivers call) :=
  inferInstanceAs (Decidable (_ = _))

/-- The second invocation is refused: `ERR_STREAM_NOT_GOOD`. -/
theorem refused_after_failed_send : ∃ before call, call.Serialises ∧
    ¬ ((channel 1 true).after before).Delivers call ∧
      (((channel 1 true).after before).invoke call).reported = [.errStreamNotGood] :=
  ⟨[⟨[byteVector (List.replicate 65 0)], 0, .returned 0⟩],
    ⟨[byteVector [7]], 1, .returned 0⟩, by decide +kernel⟩

end AsyncSqlite
