import AsyncSqlite.Data.Stream
import AsyncSqlite.Remote.Transport

/-!
# AsyncSqlite.Remote.Delegate — one invocation of a remote delegate

`DelegateRemote::operator()` with its `Serializer::Write`, `Dispatcher::Dispatch`
and the transport's `Send`, as a function of what the delegate holds when it is
invoked and of what its collaborators do: how each argument is written, the
number that `m_seqNum.fetch_add(1)` gives, and how `Send` ends.

Exceptions are enabled. An error without an error handler leaves `operator()` as
an exception; an error handler is taken to return.
-/

namespace AsyncSqlite

inductive DelegateError where
  | success | errStreamNotGood | errNoSerializer | errSerialize | errDeserialize
  | errDeserializeException | errNoDispatcher | errDispatch | errTypeMismatch
deriving DecidableEq, Repr

/-! ## `Serializer::Write` -/

/-- What `ser.write(os, arg)` does to a stream, and whether it throws. No
overload clears an error bit. -/
structure ArgWriter where
  write : OStream → OStream × Bool
  sticky : ∀ os, os.failbit = true → (write os).1.failbit = true

/-- `(ser.write(os, args), ...)`; an exception ends it. -/
def writeArgs : List ArgWriter → OStream → OStream × Bool
  | [], os => (os, false)
  | arg :: args, os =>
    match arg.write os with
    | (os, true) => (os, true)
    | (os, false) => writeArgs args os

/-- `Serializer::Write`: the position and the contents are reset, the error
bits are not. -/
def serializerWrite (os : OStream) (args : List ArgWriter) : OStream × Bool :=
  writeArgs args ((os.seekp 0).str [])

theorem failbit_writeArgs (args : List ArgWriter) {os : OStream} (hf : os.failbit = true) :
    (writeArgs args os).1.failbit = true := by
  induction args generalizing os with
  | nil => exact hf
  | cons arg args ih =>
    have hsticky := arg.sticky os hf
    unfold writeArgs
    rcases harg : arg.write os with ⟨os', threw⟩
    rw [harg] at hsticky
    cases threw with
    | true => exact hsticky
    | false => exact ih hsticky

/-- On a good stream nothing of what was there before is left. -/
theorem serializerWrite_of_good {os : OStream} (hg : os.failbit = false) (args : List ArgWriter) :
    serializerWrite os args = serializerWrite OStream.fresh args := by
  have hseek : (os.seekp 0).failbit = false := by
    have hzero := OStream.seekp_of_le hg (Nat.zero_le os.buf.length)
    rw [Nat.cast_zero] at hzero
    rw [hzero]
  have hreset : (os.seekp 0).str [] = OStream.fresh := by
    simp only [OStream.str, hseek, OStream.fresh]
  rw [serializerWrite, serializerWrite, hreset]
  rfl

/-- A stream that has failed stays failed. -/
theorem serializerWrite_of_fail {os : OStream} (hf : os.failbit = true) (args : List ArgWriter) :
    (serializerWrite os args).1.failbit = true := by
  apply failbit_writeArgs
  rw [OStream.seekp_of_fail hf]
  exact hf

/-! ## `Dispatcher::Dispatch` -/

/-- How `m_transport->Send` ends. -/
inductive SendResult where
  | returned (err : ℤ)
  | threw
deriving DecidableEq

structure Dispatcher where
  /-- `m_transport` is set -/
  transport : Bool

structure Dispatched where
  /-- `none` for an exception -/
  error : Option ℤ
  stream : OStream
  /-- header and payload that `Send` was given -/
  handed : Option (DmqHeader × List UInt8)

/-- `Dispatch(os, id, outSeqNum)` -/
def Dispatcher.dispatch (d : Dispatcher) (os : OStream) (id : DelegateRemoteId) (seq : UInt16)
    (send : SendResult) : Dispatched :=
  if d.transport then
    let handed := some (DmqHeader.make id seq, os.buf)
    match send with
    | .returned err => ⟨some err, ((os.str []).clear).seekp 0, handed⟩
    | .threw => ⟨none, os, handed⟩
  else ⟨some (-1), os, none⟩

/-! ## `operator()` -/

structure DelegateRemote where
  id : DelegateRemoteId
  /-- `m_serializer` is set -/
  serializer : Bool
  stream : Option OStream
  dispatcher : Option Dispatcher
  /-- `m_errorHandler` is set -/
  errorHandler : Bool
  lastSeqNum : UInt16
  error : DelegateError

/-- What one invocation meets. -/
structure RemoteCall where
  args : List ArgWriter
  /-- what `m_seqNum.fetch_add(1)` gives, if it is reached -/
  seqNum : UInt16
  send : SendResult

structure Invocation where
  delegate : DelegateRemote
  handed : Option (DmqHeader × List UInt8)
  /-- what the error handler was called with -/
  reported : List DelegateError
  threw : Bool

namespace DelegateRemote

/-- The invocation ends in `RaiseError(m_id, error)`. -/
def raiseError (d : DelegateRemote) (handed : Option (DmqHeader × List UInt8))
    (error : DelegateError) : Invocation :=
  { delegate := { d with error := error }
    handed := handed
    reported := if d.errorHandler then [error] else []
    threw := !d.errorHandler }

/-- The invocation ends in `RaiseSuccess(m_id)`, which leaves `m_error` as it is. -/
def raiseSuccess (d : DelegateRemote) (handed : Option (DmqHeader × List UInt8)) : Invocation :=
  { delegate := d
    handed := handed
    reported := if d.errorHandler then [.success] else []
    threw := false }

/-- `operator()(args...)` -/
def invoke (d : DelegateRemote) (call : RemoteCall) : Invocation :=
  match d.serializer, d.stream with
  | true, some stream =>
    let written := serializerWrite stream call.args
    let d := { d with stream := some written.1 }
    if written.2 then d.raiseError none .errSerialize
    else if !written.1.good then d.raiseError none .errStreamNotGood
    else match d.dispatcher with
    | some dispatcher =>
      let sent := dispatcher.dispatch written.1 d.id call.seqNum call.send
      let d := { d with
        stream := some sent.stream
        lastSeqNum := if sent.handed.isSome then call.seqNum else d.lastSeqNum }
      if sent.error = some 0 then d.raiseSuccess sent.handed
      else d.raiseError sent.handed .errDispatch
    | none => d.raiseError none .errNoDispatcher
  | _, _ => d.raiseError none .errNoSerializer

/-- An invocation either hands a message to the transport, whose number is then
the last one, or leaves the last number as it was. -/
theorem invoke_cases (d : DelegateRemote) (call : RemoteCall) :
    ((d.invoke call).handed = none ∧ (d.invoke call).delegate.lastSeqNum = d.lastSeqNum) ∨
      (∃ payload, (d.invoke call).handed = some (DmqHeader.make d.id call.seqNum, payload)) ∧
        (d.invoke call).delegate.lastSeqNum = call.seqNum := by
  obtain ⟨id, serializer, stream, dispatcher, handler, last, error⟩ := d
  match serializer, stream, dispatcher with
  | false, _, _ => exact Or.inl ⟨rfl, rfl⟩
  | true, none, _ => exact Or.inl ⟨rfl, rfl⟩
  | true, some os, none =>
    simp only [invoke]
    split_ifs <;> exact Or.inl ⟨rfl, rfl⟩
  | true, some os, some ⟨false⟩ =>
    simp only [invoke, Dispatcher.dispatch, Bool.false_eq_true, if_false, Option.isSome_none]
    split_ifs <;> exact Or.inl ⟨rfl, rfl⟩
  | true, some os, some ⟨true⟩ =>
    -- whatever `Send` returned, the message was handed over
    have hsent (d : DelegateRemote) (h : DmqHeader × List UInt8) (e : Option ℤ) (r : Invocation)
        (hr : r = if e = some 0 then d.raiseSuccess (some h)
          else d.raiseError (some h) .errDispatch) :
        r.handed = some h ∧ r.delegate.lastSeqNum = d.lastSeqNum := by
      rw [hr]
      split <;> exact ⟨rfl, rfl⟩
    cases hsend : call.send
    all_goals
      simp only [invoke, Dispatcher.dispatch, hsend, if_true, Option.isSome_some]
      split
      · exact Or.inl ⟨rfl, rfl⟩
      split
      · exact Or.inl ⟨rfl, rfl⟩
      exact Or.inr ⟨⟨_, (hsent _ _ _ _ rfl).1⟩, (hsent _ _ _ _ rfl).2⟩

/-- After a send, `GetLastSeqNum` gives the number of its header. -/
theorem lastSeqNum_of_handed {d : DelegateRemote} {call : RemoteCall} {n : UInt16}
    (h : (d.invoke call).handed.map (fun p => p.1.seqNum) = some n) :
    (d.invoke call).delegate.lastSeqNum = n := by
  rcases d.invoke_cases call with ⟨hnone, -⟩ | ⟨⟨payload, hsome⟩, hlast⟩
  · rw [hnone] at h
    cases h
  · rw [hsome] at h
    exact hlast.trans (Option.some.inj h)

/-- `GetError()`, which resets the error. -/
def getError (d : DelegateRemote) : DelegateError × DelegateRemote :=
  (d.error, { d with error := .success })

end DelegateRemote

end AsyncSqlite
