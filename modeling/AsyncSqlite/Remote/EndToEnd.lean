import AsyncSqlite.Remote.Message
import AsyncSqlite.Remote.Participant

/-!
# AsyncSqlite.Remote.EndToEnd — calls from one process to another

Remote channels in one process, all over one publisher socket, and a participant
with a handler for each of their ids in another. The network between them loses,
repeats and reorders datagrams as it likes.

A target is only ever called with the arguments of a call on its channel
(`remote_call_integrity`), although `Send` may cut a payload off and a stream may
have failed before. Over a network that keeps datagrams and their order the
targets are called with what was sent, in this order (`remote_calls_in_order`).
-/

namespace AsyncSqlite

universe u

open Serialize

/-- What the two processes have in common, and their sockets. -/
structure RemoteProgram (C : Type u) where
  cls : Classes C
  /-- the signature of each id -/
  fields : DelegateRemoteId → List (Serialize.Field C)
  /-- the variables of the arguments, as `Invoke` declares them -/
  vars : DelegateRemoteId → List Val
  errorHandler : Bool
  publisher : UdpTransport
  subscriber : UdpTransport
  recv : subscriber.recvTransport = .self

variable {C : Type u}

/-- A call whose message went to the network: how many messages were numbered
before it, its id and its arguments. -/
structure RemoteMessage (P : RemoteProgram C) where
  position : ℕ
  id : DelegateRemoteId
  args : Arguments P.cls (P.fields id)

/-- A call of a target. -/
structure TargetCall where
  /-- the message that it is due to, by its place among all that were sent -/
  origin : ℕ
  id : DelegateRemoteId
  vals : List Val

structure Datagram where
  bytes : List UInt8
  origin : ℕ

def RemoteMessage.call {P : RemoteProgram C} (m : RemoteMessage P) :
    DelegateRemoteId × List Val :=
  (m.id, m.args.vals)

/-- The header of a message. -/
def RemoteMessage.frame {P : RemoteProgram C} (m : RemoteMessage P) (length : UInt16) :
    DmqHeader :=
  { DmqHeader.make m.id (UInt16.ofNat m.position) with length := length }

def TargetCall.call (e : TargetCall) : DelegateRemoteId × List Val := (e.id, e.vals)

structure RemoteSys (P : RemoteProgram C) (size : ℕ) where
  /-- the delegate of each channel -/
  sender : DelegateRemoteId → DelegateRemote
  /-- `Dispatcher::m_seqNum` -/
  seqNum : UInt16
  dispatched : ℕ
  net : List Datagram
  receiver : Participant size
  /-- the delegate of each handler -/
  bound : DelegateRemoteId → DelegateRemote
  /-- a failed `ASSERT_TRUE` in the receiver -/
  faulted : Bool
  sent : List (RemoteMessage P)
  called : List TargetCall

inductive RemoteLabel (P : RemoteProgram C) where
  /-- `RegisterHandler` -/
  | register (id : DelegateRemoteId)
  /-- `operator()` of the channel; whether `sendto` succeeds -/
  | invoke (id : DelegateRemoteId) (args : Arguments P.cls (P.fields id)) (sendto : Bool)
  /-- `ProcessIncoming` on one of the datagrams -/
  | receive (k : ℕ)
  | lose (k : ℕ)
  | duplicate (k : ℕ)

namespace RemoteSys

variable {P : RemoteProgram C} {size : ℕ} [NeZero size]

def initial : RemoteSys P size where
  sender id := .channel id P.errorHandler
  seqNum := 0
  dispatched := 0
  net := []
  receiver := .initial
  bound id := .channel id P.errorHandler
  faulted := false
  sent := []
  called := []

def guard : RemoteLabel P → RemoteSys P size → Prop
  | .receive k, s | .lose k, s | .duplicate k, s => k < s.net.length
  | _, _ => True

/-- What `Send` returns for the arguments on this stream. -/
def sendResult (s : RemoteSys P size) (id : DelegateRemoteId) (os : OStream)
    (writers : List ArgWriter) (sendto : Bool) : SendResult :=
  match P.publisher.send (serializerWrite os writers).1.buf (.make id s.seqNum) with
  | none => .returned (-1)
  | some _ => .returned (if sendto then 0 else -1)

/-- `(*channel)(args...)` -/
def invoke (id : DelegateRemoteId) (args : Arguments P.cls (P.fields id)) (sendto : Bool)
    (s : RemoteSys P size) : RemoteSys P size :=
  let d := s.sender id
  let send := s.sendResult id (d.stream.getD OStream.fresh) args.writers sendto
  let r := d.invoke ⟨args.writers, s.seqNum, send⟩
  let t := { s with sender := Function.update s.sender id r.delegate }
  match r.handed with
  | none => t
  | some (header, payload) =>
    let t := { t with seqNum := s.seqNum + 1, dispatched := s.dispatched + 1 }
    match (P.publisher.send payload header).filter fun _ => sendto with
    | none => t
    | some bytes =>
      { t with
        net := s.net ++ [⟨bytes, s.sent.length⟩]
        sent := s.sent ++ [⟨s.dispatched, id, args⟩] }

/-- `ProcessIncoming` -/
def receive (k : ℕ) (s : RemoteSys P size) : RemoteSys P size :=
  match s.net[k]? with
  | none => s
  | some g =>
    let r := P.subscriber.receive g.bytes
    let header := r.header.getD (.make 0 0)
    let p := s.receiver.processIncoming r.code header
    let s := { s with net := s.net.eraseIdx k, receiver := p.2.1 }
    if p.2.2 = .invoked then
      match (s.bound header.id).invokeFrom P.cls (P.fields header.id) (P.vars header.id)
          (IStream.open_ r.payload) with
      | none => { s with faulted := true }
      | some i =>
        { s with
          bound := Function.update s.bound header.id i.delegate
          called := s.called ++ i.called.toList.map fun vals => ⟨g.origin, header.id, vals⟩ }
    else s

def update : RemoteLabel P → RemoteSys P size → RemoteSys P size
  | .register id, s => { s with receiver := s.receiver.registerHandler id }
  | .invoke id args sendto, s => s.invoke id args sendto
  | .receive k, s => s.receive k
  | .lose k, s => { s with net := s.net.eraseIdx k }
  | .duplicate k, s => { s with net := s.net ++ s.net[k]?.toList }

end RemoteSys

open RemoteSys

def remoteLts (P : RemoteProgram C) (size : ℕ) [NeZero size] :
    Lts (RemoteSys P size) (RemoteLabel P) where
  init s := s = initial
  guard := guard
  update := update

instance (P : RemoteProgram C) (size : ℕ) [NeZero size] (l : RemoteLabel P)
    (s : RemoteSys P size) : Decidable ((remoteLts P size).guard l s) :=
  match l with
  | .register _ | .invoke _ _ _ => isTrue trivial
  | .receive _ | .lose _ | .duplicate _ => inferInstanceAs (Decidable (_ < _))

/-! ## One call -/

theorem DelegateRemote.id_invoke (d : DelegateRemote) (call : RemoteCall) :
    (d.invoke call).delegate.id = d.id := by
  rcases d with ⟨id, serializer, stream, dispatcher, handler, last, error⟩
  cases serializer with
  | false => rfl
  | true =>
    cases stream with
    | none => rfl
    | some os =>
      simp only [DelegateRemote.invoke]
      split
      · rfl
      · split
        · rfl
        · cases dispatcher with
          | none => rfl
          | some dispatcher =>
            dsimp only
            split
            · rfl
            · rfl

namespace RemoteSys

variable {P : RemoteProgram C} {size : ℕ} [NeZero size] {s : RemoteSys P size}
  {id : DelegateRemoteId} {args : Arguments P.cls (P.fields id)} {sendto : Bool}

/-- The delegate of a channel. -/
structure Channel (d : DelegateRemote) (id : DelegateRemoteId) : Prop where
  wired : ∃ os, d.Wired os
  id : d.id = id

variable (args sendto) in
omit [NeZero size] in
/-- What a call on a channel does: its message gets no number, or it gets the next
one and is not sent, or it is sent. -/
theorem invoke_cases (hd : Channel (s.sender id) id) :
    ∃ d, Channel d id ∧
      (s.invoke id args sendto = { s with sender := Function.update s.sender id d } ∨
        s.invoke id args sendto =
          { s with
            sender := Function.update s.sender id d
            seqNum := s.seqNum + 1
            dispatched := s.dispatched + 1 } ∨
        ∃ bytes, P.publisher.send (serializerWrite OStream.fresh args.writers).1.buf
            (.make id s.seqNum) = some bytes ∧
          ArgsEncode P.cls (P.fields id) args.vals
            (serializerWrite OStream.fresh args.writers).1.buf ∧
          s.invoke id args sendto =
            { s with
              sender := Function.update s.sender id d
              seqNum := s.seqNum + 1
              dispatched := s.dispatched + 1
              net := s.net ++ [⟨bytes, s.sent.length⟩]
              sent := s.sent ++ [⟨s.dispatched, id, args⟩] }) := by
  rcases hd with ⟨⟨os, hwired⟩, hid⟩
  let call : RemoteCall :=
    ⟨args.writers, s.seqNum, s.sendResult id ((s.sender id).stream.getD OStream.fresh) args.writers
      sendto⟩
  have hargs : serializerWrite os call.args = serializerWrite os args.writers := rfl
  rcases hwired.invoke call with ⟨os', hwired', -⟩
  have hchannel : Channel ((s.sender id).invoke call).delegate id :=
    ⟨⟨os', hwired'⟩, (DelegateRemote.id_invoke _ _).trans hid⟩
  refine ⟨((s.sender id).invoke call).delegate, hchannel, ?_⟩
  rcases hwrite : serializerWrite os args.writers with ⟨os₁, threw⟩
  cases hfail : os₁.failbit with
  | true =>
    have hnone := (hwired.invoke_of_failed (hargs.trans hwrite) (Or.inr hfail)).1
    left
    simp only [RemoteSys.invoke]
    rw [hnone]
  | false =>
    -- a stream that is good now was good before
    have hstart : os.failbit = false := by
      cases hos : os.failbit with
      | false => rfl
      | true =>
        have hbad := serializerWrite_of_fail hos args.writers
        rw [hwrite] at hbad
        exact absurd (hbad.symm.trans hfail) (by decide)
    have hfresh := serializerWrite_of_good hstart args.writers
    have hgood : (serializerWrite OStream.fresh args.writers).1.failbit = false := by
      rw [← hfresh, hwrite]
      exact hfail
    rcases encodes_of_written args hgood with ⟨hthrew, hencodes⟩
    rw [← hfresh, hwrite] at hthrew hencodes
    cases hthrew
    have hhanded := (hwired.invoke_of_written (hargs.trans hwrite) hfail).1
    rw [hid] at hhanded
    rw [← hfresh, hwrite]
    right
    simp only [RemoteSys.invoke]
    rw [hhanded]
    dsimp only
    have hnum : call.seqNum = s.seqNum := rfl
    rw [hnum]
    cases hsend : P.publisher.send os₁.buf (.make id s.seqNum) with
    | none => exact Or.inl rfl
    | some bytes =>
      cases sendto with
      | false => exact Or.inl rfl
      | true => exact Or.inr ⟨bytes, rfl, hencodes, rfl⟩

/-! ## One datagram -/

/-- The datagram is one of the message, and `payload` is what it holds of `bs`,
the arguments as they were written. -/
structure Carries (m : RemoteMessage P) (g : Datagram) (payload bs : List UInt8) : Prop where
  encodes : ArgsEncode P.cls (P.fields m.id) m.args.vals bs
  part : payload <+: bs
  bytes : ∃ n : UInt16, g.bytes = (m.frame n).bytes ++ payload ∧ payload.length ≤ n.toNat ∧
    n.toNat ≤ UdpTransport.bufferSize - DmqHeader.headerSize

/-- The handler of the message is called with its arguments, if the filter lets
the message through and all of it is there. -/
theorem receive_of_carries {k : ℕ} {g : Datagram} {m : RemoteMessage P} {payload bs : List UInt8}
    (hg : s.net[k]? = some g) (hc : Carries m g payload bs)
    (hb : (s.bound m.id).serializer = true) :
    ∃ n, ((s.receiver.processIncoming 0 (m.frame n)).2.2 ≠ .invoked ∧
      s.receive k =
        { s with
          net := s.net.eraseIdx k
          receiver := (s.receiver.processIncoming 0 (m.frame n)).2.1 }) ∨
      ((s.receiver.processIncoming 0 (m.frame n)).2.2 = .invoked ∧
        ∃ d : DelegateRemote, d.serializer = true ∧
          s.receive k =
            { s with
              net := s.net.eraseIdx k
              receiver := (s.receiver.processIncoming 0 (m.frame n)).2.1
              bound := Function.update s.bound m.id d
              called := s.called ++
                if payload = bs then [⟨g.origin, m.id, m.args.vals⟩] else [] }) := by
  rcases hc.bytes with ⟨n, hbytes, hlen, hmax⟩
  have hmark : (m.frame n).marker = DmqHeader.markerValue := rfl
  rcases UdpTransport.receive_spec P.recv hmark hlen hmax with
    ⟨hcode, hheader, hpayload⟩
  rw [← hbytes] at hcode hheader hpayload
  refine ⟨n, ?_⟩
  unfold RemoteSys.receive
  simp only [hg, hcode, hheader, hpayload, Option.getD_some]
  by_cases hin : (s.receiver.processIncoming 0 (m.frame n)).2.2 = .invoked
  · right
    rcases invokeFrom_spec hb m.args.typed hc.encodes hc.part (P.vars m.id) with
      ⟨r, hr, hserializer, hcalled⟩
    refine ⟨hin, r.delegate, hserializer, ?_⟩
    have hid : (m.frame n).id = m.id := rfl
    rw [if_pos hin, hid, hr]
    dsimp only
    rw [hcalled]
    by_cases hwhole : payload = bs
    · simp [hwhole]
    · simp [hwhole]
  · left
    exact ⟨hin, by rw [if_neg hin]⟩

/-! ## Any network -/

structure RemoteInv (s : RemoteSys P size) : Prop where
  channel : ∀ id, Channel (s.sender id) id
  bound : ∀ id, (s.bound id).serializer = true
  counter : s.seqNum = UInt16.ofNat s.dispatched
  faulted : s.faulted = false
  net : ∀ g ∈ s.net, ∃ m payload bs, s.sent[g.origin]? = some m ∧ Carries m g payload bs
  called : ∀ e ∈ s.called, ∃ m, s.sent[e.origin]? = some m ∧ m.call = e.call

theorem RemoteInv.start : RemoteInv (initial : RemoteSys P size) where
  channel id := ⟨⟨_, DelegateRemote.wired_channel id P.errorHandler⟩, rfl⟩
  bound _ := rfl
  counter := rfl
  faulted := rfl
  net g hg := by cases hg
  called e he := by cases he

omit [NeZero size] in
theorem channel_update {d : DelegateRemote} (h : ∀ id, Channel (s.sender id) id)
    (hd : Channel d id) (id' : DelegateRemoteId) :
    Channel (Function.update s.sender id d id') id' := by
  by_cases hid : id' = id
  · subst hid
    rw [Function.update_self]
    exact hd
  · rw [Function.update_of_ne hid]
    exact h id'

theorem getElem?_append_of_some {α : Type u} {l l' : List α} {k : ℕ} {a : α}
    (h : l[k]? = some a) : (l ++ l')[k]? = some a := by
  rw [List.getElem?_append_left (List.getElem?_eq_some_iff.mp h).1]
  exact h

/-- The datagram that is sent for a call. -/
theorem carries_of_send {bytes payload : List UInt8} (m : RemoteMessage P) (origin : ℕ)
    (hsend : P.publisher.send payload (.make m.id (UInt16.ofNat m.position)) = some bytes)
    (hencodes : ArgsEncode P.cls (P.fields m.id) m.args.vals payload) :
    ∃ part, Carries m ⟨bytes, origin⟩ part payload ∧
      (payload.length < 65536 → part = payload) := by
  rcases UdpTransport.send_spec hsend with ⟨n, hmax, hbytes, hwhole⟩
  refine ⟨payload.take n.toNat, ⟨hencodes, List.take_prefix _ _, n, hbytes, ?_, hmax⟩, hwhole⟩
  exact List.length_take_le _ _

omit [NeZero size] in
theorem RemoteInv.invoke (h : RemoteInv s) (id : DelegateRemoteId)
    (args : Arguments P.cls (P.fields id)) (sendto : Bool) :
    RemoteInv (s.invoke id args sendto) := by
  rcases invoke_cases args sendto (h.channel id) with
    ⟨d, hd, heq | heq | ⟨bytes, hsend, hencodes, heq⟩⟩
  · rw [heq]
    exact { h with channel := channel_update h.channel hd }
  · rw [heq]
    exact
      { h with
        channel := channel_update h.channel hd
        counter := by
          rw [h.counter]
          exact (UInt16.ofNat_add ..).symm }
  · rw [heq]
    rw [h.counter] at hsend
    rcases carries_of_send ⟨s.dispatched, id, args⟩ s.sent.length hsend hencodes with
      ⟨part, hcarries, -⟩
    exact
      { h with
        channel := channel_update h.channel hd
        counter := by
          rw [h.counter]
          exact (UInt16.ofNat_add ..).symm
        net := by
          intro g hg
          rcases List.mem_append.mp hg with hold | hnew
          · rcases h.net g hold with ⟨m, payload, bs, hm, hc⟩
            exact ⟨m, payload, bs, getElem?_append_of_some hm, hc⟩
          · rw [List.mem_singleton.mp hnew]
            exact ⟨_, part, _, List.getElem?_concat_length, hcarries⟩
        called := by
          intro e he
          rcases h.called e he with ⟨m, hm, hcall⟩
          exact ⟨m, getElem?_append_of_some hm, hcall⟩ }

theorem RemoteInv.receive (h : RemoteInv s) {k : ℕ} (hk : k < s.net.length) :
    RemoteInv (s.receive k) := by
  have hg : s.net[k]? = some s.net[k] := List.getElem?_eq_getElem hk
  rcases h.net _ (List.getElem_mem hk) with ⟨m, payload, bs, hm, hc⟩
  have hnet : ∀ g ∈ s.net.eraseIdx k, ∃ m payload bs, s.sent[g.origin]? = some m ∧
      Carries m g payload bs := fun g hmem => h.net g (List.mem_of_mem_eraseIdx hmem)
  rcases receive_of_carries hg hc (h.bound m.id) with ⟨n, ⟨-, heq⟩ | ⟨-, d, hd, heq⟩⟩
  · rw [heq]
    exact { h with net := hnet }
  · rw [heq]
    exact
      { h with
        net := hnet
        bound := by
          intro id
          by_cases hid : id = m.id
          · subst hid
            simpa using hd
          · simp [Function.update_of_ne hid, h.bound id]
        called := by
          intro e he
          rcases List.mem_append.mp he with hold | hnew
          · exact h.called e hold
          · split at hnew
            · rw [List.mem_singleton.mp hnew]
              exact ⟨m, hm, rfl⟩
            · cases hnew }

theorem remote_of_reachable {ok : RemoteLabel P → RemoteSys P size → Prop}
    (hr : (remoteLts P size).ReachableWhen ok s) : RemoteInv s := by
  refine hr.induct ?_ ?_
  · rintro s rfl
    exact RemoteInv.start
  · intro l s _ hg _ h
    cases l with
    | register id => exact { h with }
    | invoke id args sendto => exact h.invoke id args sendto
    | receive k => exact h.receive hg
    | lose k =>
      exact { h with net := fun g hmem => h.net g (List.mem_of_mem_eraseIdx hmem) }
    | duplicate k =>
      refine { h with net := ?_ }
      intro g hmem
      rcases List.mem_append.mp hmem with hold | hnew
      · exact h.net g hold
      · rw [Option.mem_toList] at hnew
        exact h.net g (List.mem_of_getElem? hnew)

/-! ## A network that keeps the order -/

/-- A message by its position among all messages of the process, and its id. -/
def pos (m : RemoteMessage P) : Position := (m.position, m.id)

/-- Nothing is lost, repeated or overtaken; the handlers are there in time, and
the payloads are not cut off. No message has the number of one of the last `size`
messages of its id. -/
def Ordered : RemoteLabel P → RemoteSys P size → Prop
  | .register _, _ => True
  | .invoke id args _, s => s.receiver.channels id = true ∧
      (serializerWrite OStream.fresh args.writers).1.buf.length < 65536 ∧
      (id ≠ ackRemoteId →
        s.dispatched % 65536 ∉ recent size (DispatchSys.residues id (s.sent.map pos)))
  | .receive k, _ => k = 0
  | .lose _, _ | .duplicate _, _ => False

instance (l : RemoteLabel P) (s : RemoteSys P size) : Decidable (Ordered l s) :=
  match l with
  | .register _ => isTrue trivial
  | .invoke _ _ _ => inferInstanceAs (Decidable (_ ∧ _ ∧ (_ → _)))
  | .receive _ => inferInstanceAs (Decidable (_ = _))
  | .lose _ | .duplicate _ => inferInstanceAs (Decidable False)

/-- The messages `pending` are on their way, in the order in which they were sent. -/
structure QueueInv (s : RemoteSys P size) (done pending : List (RemoteMessage P)) : Prop where
  sent : s.sent = done ++ pending
  called : s.called.map TargetCall.call = done.map RemoteMessage.call
  net : List.Forall₂ (fun g m => ∃ bs, Carries m g bs bs) s.net pending
  receiver : s.receiver.ReceiverInv ((done.map pos).map DispatchSys.frame)
  registered : ∀ m ∈ pending, s.receiver.channels m.id = true
  spaced : DispatchSys.WellSpaced size (s.sent.map pos)

omit [NeZero size] in
/-- What comes first of messages that are well spaced is so too. -/
theorem wellSpaced_left {l l' : List Position} (h : DispatchSys.WellSpaced size (l ++ l')) :
    DispatchSys.WellSpaced size l := by
  induction l' using List.reverseRecOn with
  | nil => rwa [List.append_nil] at h
  | append_singleton l' f ih =>
    rw [← List.append_assoc] at h
    exact ih (DispatchSys.wellSpaced_concat.mp h).1

/-- The filter does not look at the length of a frame. -/
theorem numbers_frame (id : DelegateRemoteId) (l : List DmqHeader) (m : RemoteMessage P)
    (n : UInt16) :
    numbers id (l ++ [m.frame n]) = numbers id (l ++ [DispatchSys.frame (pos m)]) := by
  rw [Participant.numbers_concat, Participant.numbers_concat]
  rfl

theorem QueueInv.start : QueueInv (initial : RemoteSys P size) [] [] where
  sent := rfl
  called := rfl
  net := .nil
  receiver := Participant.ReceiverInv.initial
  registered m hm := by cases hm
  spaced id _ := spaced_nil

theorem QueueInv.invoke {done pending : List (RemoteMessage P)} (h : QueueInv s done pending)
    (hinv : RemoteInv s) {id : DelegateRemoteId} {args : Arguments P.cls (P.fields id)}
    {sendto : Bool} (hok : Ordered (.invoke id args sendto) s) :
    ∃ done pending, QueueInv (s.invoke id args sendto) done pending := by
  rcases hok with ⟨hchannel, hsmall, hnew⟩
  rcases invoke_cases args sendto (hinv.channel id) with
    ⟨d, hd, heq | heq | ⟨bytes, hsend, hencodes, heq⟩⟩
  · rw [heq]
    exact ⟨done, pending, { h with }⟩
  · rw [heq]
    exact ⟨done, pending, { h with }⟩
  · rw [heq]
    rw [hinv.counter] at hsend
    rcases carries_of_send ⟨s.dispatched, id, args⟩ s.sent.length hsend hencodes with
      ⟨part, hcarries, hwhole⟩
    rw [hwhole hsmall] at hcarries
    refine ⟨done, pending ++ [⟨s.dispatched, id, args⟩], ?_⟩
    exact
      { sent := by
          rw [h.sent, List.append_assoc]
        called := h.called
        net := List.rel_append h.net (.cons ⟨_, hcarries⟩ .nil)
        receiver := h.receiver
        registered := by
          intro m hm
          rcases List.mem_append.mp hm with hold | hnew
          · exact h.registered m hold
          · rw [List.mem_singleton.mp hnew]
            exact hchannel
        spaced := by
          rw [List.map_append]
          exact DispatchSys.wellSpaced_concat.mpr ⟨h.spaced, hnew⟩ }

/-- The first datagram is taken from the network: its message is new to the
filter, so the handler is called. -/
theorem QueueInv.receive {done pending : List (RemoteMessage P)} (h : QueueInv s done pending)
    (hinv : RemoteInv s) (hk : 0 < s.net.length) :
    ∃ done pending, QueueInv (s.receive 0) done pending := by
  rcases hnet : s.net with _ | ⟨g, net⟩
  · rw [hnet] at hk
    cases hk
  have hforall := h.net
  rw [hnet] at hforall
  cases pending with
  | nil => cases hforall
  | cons m pending =>
    rcases List.forall₂_cons.mp hforall with ⟨⟨bs, hc⟩, hrest⟩
    have hg : s.net[0]? = some g := by
      rw [hnet]
      rfl
    rcases receive_of_carries hg hc (hinv.bound m.id) with ⟨n, hcases⟩
    have hoffered : s.receiver.Offered 0 (m.frame n) :=
      ⟨rfl, rfl, h.registered m (List.mem_cons_self ..)⟩
    have hspaced : DispatchSys.WellSpaced size (done.map pos ++ [pos m]) := by
      have hall := h.spaced
      rw [h.sent, ← List.singleton_append, ← List.append_assoc, List.map_append,
        List.map_append] at hall
      exact wellSpaced_left hall
    have hnew : (m.frame n).id ≠ ackRemoteId → (m.frame n).seqNum ∉
        recent size (numbers (m.frame n).id ((done.map pos).map DispatchSys.frame)) := by
      intro hid hmem
      refine (DispatchSys.wellSpaced_concat.mp hspaced).2 hid ?_
      exact DispatchSys.mem_recent_numbers.mp hmem
    rcases Participant.offered_new h.receiver hoffered hnew with ⟨hinvoked, hchannels, hreceiver⟩
    rcases hcases with ⟨hnot, -⟩ | ⟨-, d, -, heq⟩
    · exact absurd hinvoked hnot
    · rw [heq]
      refine ⟨done ++ [m], pending, ?_⟩
      exact
        { sent := by
            rw [List.append_assoc]
            exact h.sent
          called := by
            rw [List.map_append, List.map_append, h.called, if_pos rfl]
            rfl
          net := by
            rw [hnet]
            exact hrest
          receiver := by
            have hnumbers := fun id =>
              numbers_frame id ((done.map pos).map DispatchSys.frame) m n
            rw [List.map_append, List.map_append]
            exact ⟨fun id hid => hnumbers id ▸ hreceiver.history id hid,
              fun id hid => hnumbers id ▸ hreceiver.spaced id hid⟩
          registered := by
            intro m' hm'
            change (s.receiver.processIncoming 0 (m.frame n)).2.1.channels m'.id = true
            rw [hchannels]
            exact h.registered m' (List.mem_cons_of_mem _ hm')
          spaced := h.spaced }

theorem queue_of_reachable (hr : (remoteLts P size).ReachableWhen Ordered s) :
    ∃ done pending, QueueInv s done pending := by
  refine hr.induct (P := fun s => ∃ done pending, QueueInv s done pending) ?_ ?_
  · rintro s rfl
    exact ⟨[], [], QueueInv.start⟩
  · rintro l s hr hg hok ⟨done, pending, h⟩
    have hinv := remote_of_reachable hr
    cases l with
    | register id =>
      refine ⟨done, pending, { h with receiver := ?_, registered := ?_ }⟩
      · exact ⟨h.receiver.history, h.receiver.spaced⟩
      · intro m hm
        change Function.update s.receiver.channels id true m.id = true
        by_cases hid : m.id = id
        · rw [hid, Function.update_self]
        · rw [Function.update_of_ne hid]
          exact h.registered m hm
    | invoke id args sendto => exact h.invoke hinv hok
    | receive k =>
      cases hok
      exact h.receive hinv hg
    | lose k => exact absurd hok id
    | duplicate k => exact absurd hok id

end RemoteSys

variable {P : RemoteProgram C} {size : ℕ} [NeZero size] {s : RemoteSys P size}

/-- Whatever the network does: each call of a target has the id and the arguments
of a message that was sent. -/
theorem remote_call_integrity (hr : (remoteLts P size).Reachable s) :
    s.faulted = false ∧ ∀ e ∈ s.called, ∃ m, s.sent[e.origin]? = some m ∧ m.call = e.call := by
  have h := remote_of_reachable hr
  exact ⟨h.faulted, h.called⟩

/-- Channels with an argument of type `std::string`. -/
def textProgram : RemoteProgram Empty where
  cls := noClasses
  fields _ := [.string]
  vars _ := [.string []]
  errorHandler := true
  publisher := ⟨.pub, .self, .self, false⟩
  subscriber := ⟨.sub, .self, .self, false⟩
  recv := rfl

def textArgs (id : DelegateRemoteId) (text : List UInt8) :
    Arguments textProgram.cls (textProgram.fields id) where
  vals := [.string text]
  typed := .cons .string .nil

/-- The texts that the targets were called with. -/
def texts (s : RemoteSys textProgram 8) : List (DelegateRemoteId × List (List UInt8)) :=
  s.called.map fun e => (e.id, e.vals.map Val.text)

/-- The second message arrives first, the first one twice. -/
theorem remote_call_integrity_run : ∃ s : RemoteSys textProgram 8,
    texts s = [(2, [[9]]), (1, [[7, 8]])] ∧
      (s.faulted = false ∧
        ∀ e ∈ s.called, ∃ m, s.sent[e.origin]? = some m ∧ m.call = e.call) := by
  have hrun := Lts.execWhen_reachable (remoteLts textProgram 8) Lts.always
    (show (remoteLts textProgram 8).init initial from rfl)
    [.register 1, .register 2, .invoke 1 (textArgs 1 [7, 8]) true, .invoke 2 (textArgs 2 [9]) true,
      .duplicate 0, .receive 1, .receive 0, .receive 0]
    (fun s => texts s = [(2, [[9]]), (1, [[7, 8]])]) (by decide +kernel)
  rcases hrun with ⟨s, hr, htexts⟩
  exact ⟨s, of_decide_eq_true htexts, remote_call_integrity hr⟩

/-- The calls that were made, and then those whose datagrams are on their way, are
the calls that were sent. -/
theorem remote_calls_in_order (hr : (remoteLts P size).ReachableWhen Ordered s) :
    ∃ pending, pending.length = s.net.length ∧
      s.sent.map RemoteMessage.call = s.called.map TargetCall.call ++ pending := by
  rcases queue_of_reachable hr with ⟨done, pending, h⟩
  refine ⟨pending.map RemoteMessage.call, ?_, ?_⟩
  · rw [List.length_map, h.net.length_eq]
  · rw [h.sent, List.map_append, h.called]

/-- Three messages, the last of which is on its way. -/
theorem remote_calls_in_order_run : ∃ s : RemoteSys textProgram 8,
    texts s = [(1, [[7]]), (2, [[]])] ∧ s.net.length = 1 ∧
      ∃ pending, pending.length = s.net.length ∧
        s.sent.map RemoteMessage.call = s.called.map TargetCall.call ++ pending := by
  have hrun := Lts.execWhen_reachable (remoteLts textProgram 8) Ordered
    (show (remoteLts textProgram 8).init initial from rfl)
    [.register 1, .register 2, .invoke 1 (textArgs 1 [7]) true, .invoke 2 (textArgs 2 []) true,
      .receive 0, .invoke 1 (textArgs 1 [9]) true, .receive 0]
    (fun s => texts s = [(1, [[7]]), (2, [[]])] && s.net.length = 1) (by decide +kernel)
  rcases hrun with ⟨s, hr, hp⟩
  rw [Bool.and_eq_true, decide_eq_true_eq, decide_eq_true_eq] at hp
  exact ⟨s, hp.1, hp.2, remote_calls_in_order hr⟩

end AsyncSqlite
