import AsyncSqlite.Data.ByteFeed
import AsyncSqlite.Remote.Transport

/-!
# AsyncSqlite.Remote.Tcp — the TCP transport, and what success says about a frame

`LinuxTcpTransport`: `Send` with `SendToSocket`, `Receive` with `ReceiveServer`
and `ReceiveSocket`, over the bytes that the peers' `read` calls will find. What
`select`, `accept` and `write` answer is a parameter of each call. The sockets'
set-up and the error output are left out.

`truncation_reported_iff` compares it with the UDP transport: when a `Send` or a
`Receive` that returns 0 has the whole payload.
-/

namespace AsyncSqlite

inductive TcpType
  | server
  | client
  deriving DecidableEq

structure TcpTransport where
  type : TcpType
  /-- `m_sendTransport` is set -/
  sends : Bool
  /-- `m_transportMonitor` is set -/
  monitored : Bool

/-- A connected socket, with who is at the other end (the code does not see it)
and the bytes that `read` will return. -/
structure TcpConn (π : Type) where
  peer : π
  feed : Feed UInt8
  deriving DecidableEq

/-- What the two `select` calls say about a connection. -/
structure TcpPoll where
  /-- `FD_ISSET` in `ReceiveServer` -/
  isSet : Bool
  /-- the `select` of `ReceiveSocket` finds it ready -/
  ready : Bool
  deriving DecidableEq

namespace TcpTransport

variable {π : Type}

/-- `BUFFER_SIZE` -/
def bufferSize : ℕ := 4096

/-! ## `Send` -/

/-- A code and the bytes put on the wire. -/
structure Sent where
  code : ℤ
  frame : Option (List UInt8)
  deriving DecidableEq

/-- What is built in `m_sendBuffer`: the length is cut to 16 bits, and only that
many bytes are copied. -/
def wireFrame (payload : List UInt8) (header : DmqHeader) : List UInt8 :=
  { header with length := UInt16.ofNat payload.length }.bytes ++
    payload.take (UInt16.ofNat payload.length).toNat

/-- `SendToSocket`; `fd` says whether the socket takes the bytes, `none` is the
descriptor -1. -/
def sendToSocket (fd : Option Bool) (payload : List UInt8) (header : DmqHeader) : Sent :=
  match fd with
  | none => ⟨-1, none⟩
  | some accepted =>
    if bufferSize - DmqHeader.headerSize < (UInt16.ofNat payload.length).toNat then ⟨-1, none⟩
    else if accepted then ⟨0, some (wireFrame payload header)⟩
    else ⟨-1, none⟩

/-- `Send` with the code and all that is put on a wire. A client has the socket
`connFd`, a server its clients. -/
def send (t : TcpTransport) (connFd : Option Bool) (serverClients : List Bool)
    (payload : List UInt8) (header : DmqHeader) : ℤ × List (List UInt8) :=
  match t.type with
  | .client =>
    let sent := sendToSocket connFd payload header
    (sent.code, sent.frame.toList)
  | .server =>
    let sent := serverClients.map fun fd => sendToSocket (some fd) payload header
    (if ∃ s ∈ sent, s.code ≠ 0 then -1 else 0, sent.filterMap Sent.frame)

/-! ## `Receive` -/

open UdpTransport (Received)

/-- The code -2: the peer is taken to be gone. -/
def disconnected (header : Option DmqHeader) : Received := ⟨-2, header, [], none, none⟩

/-- The code 0, with the acknowledgement that is handled or sent. -/
def accepted (t : TcpTransport) (header : DmqHeader) (payload : List UInt8) : Received where
  code := 0
  header := some header
  payload := payload
  removed := if header.id = ackRemoteId ∧ t.monitored then some header.seqNum else none
  reply :=
    if header.id ≠ ackRemoteId ∧ t.sends then some (UdpTransport.ackFrame header.seqNum)
    else none

/-- `ReceiveSocket` on an open socket. -/
def receiveSocket (t : TcpTransport) (ready : Bool) (fd : Feed UInt8) : Received × Feed UInt8 :=
  if ready = false then (.failed none, fd)
  else match fd.readExact DmqHeader.headerSize with
  | (none, fd) => (disconnected none, fd)
  | (some headerBuf, fd) =>
    match DmqHeader.parse headerBuf with
    -- eight bytes always parse
    | none => (.failed none, fd)
    | some (header, _) =>
      if header.marker ≠ DmqHeader.markerValue then (.failed (some header), fd)
      else if header.length = 0 then (t.accepted header [], fd)
      else if bufferSize < header.length.toNat then (.failed (some header), fd)
      else match fd.readExact header.length.toNat with
      | (none, fd) => (disconnected (some header), fd)
      | (some payload, fd) => (t.accepted header payload, fd)

/-- The loop of `ReceiveServer` over its clients, with the connections it
keeps. `header` is what the caller's header holds so far. -/
def receiveClients (t : TcpTransport) (header : Option DmqHeader) :
    List (TcpPoll × TcpConn π) → Received × List (TcpConn π)
  | [] => (.failed header, [])
  | (poll, conn) :: clients =>
    if poll.isSet then
      match t.receiveSocket poll.ready conn.feed with
      | (r, fd) =>
        -- disconnected: closed and erased, and the next client has its turn
        if r.code = -2 then receiveClients t (r.header.or header) clients
        else ({ r with header := r.header.or header },
          { conn with feed := fd } :: clients.map Prod.snd)
    else
      match receiveClients t header clients with
      | (r, conns) => (r, conn :: conns)

/-- The sockets a transport holds. -/
structure Sockets (π : Type) where
  connFd : Option (TcpConn π)
  serverClients : List (TcpConn π)
  deriving DecidableEq

/-- The clients that `ReceiveServer` goes through, with what `select` says about
each. `client` is what `accept` returns. -/
def polled (client : Option (TcpConn π)) (poll : ℕ → TcpPoll) (s : Sockets π) :
    List (TcpPoll × TcpConn π) :=
  (s.serverClients ++ client.toList).mapIdx fun i conn => (poll i, conn)

/-- `Receive`. A client looks at the first poll only. -/
def receive (t : TcpTransport) (client : Option (TcpConn π)) (poll : ℕ → TcpPoll)
    (s : Sockets π) : Received × Sockets π :=
  match t.type with
  | .server =>
    match t.receiveClients none (polled client poll s) with
    | (r, conns) => (r, { s with serverClients := conns })
  | .client =>
    match s.connFd with
    | none => (.failed none, s)
    | some conn =>
      match t.receiveSocket (poll 0).ready conn.feed with
      | (r, fd) => (r, { s with connFd := some { conn with feed := fd } })

/-! ## What `ReceiveSocket` can do -/

theorem parse_of_le : ∀ {bs : List UInt8}, DmqHeader.headerSize ≤ bs.length →
    ∃ h, DmqHeader.parse bs = some (h, bs.drop DmqHeader.headerSize) ∧
      DmqHeader.parse (bs.take DmqHeader.headerSize) = some (h, [])
  | _ :: _ :: _ :: _ :: _ :: _ :: _ :: _ :: _, _ => ⟨_, rfl, rfl⟩

theorem parse_of_lt : ∀ {bs : List UInt8}, bs.length < DmqHeader.headerSize →
    DmqHeader.parse bs = none
  | [], _ | [_], _ | [_, _], _ | [_, _, _], _ | [_, _, _, _], _ | [_, _, _, _, _], _
  | [_, _, _, _, _, _], _ | [_, _, _, _, _, _, _], _ => rfl

/-- The exits of `ReceiveSocket`, by what arrives before a timeout. -/
inductive Receives (t : TcpTransport) (ready : Bool) (fd : Feed UInt8) :
    Received → Feed UInt8 → Prop
  | idle (h : ready = false) : Receives t ready fd (.failed none) fd
  | noHeader {fd' : Feed UInt8} (hparse : DmqHeader.parse fd.unbroken = none)
    (hfd : fd'.symbols = fd.interrupted.tail) : Receives t ready fd (disconnected none) fd'
  | misframed {h : DmqHeader} {body : List UInt8} {fd' : Feed UInt8}
    (hparse : DmqHeader.parse fd.unbroken = some (h, body))
    (hmark : h.marker ≠ DmqHeader.markerValue)
    (hfd : fd'.symbols = body.map some ++ fd.interrupted) :
    Receives t ready fd (.failed (some h)) fd'
  | oversize {h : DmqHeader} {body : List UInt8} {fd' : Feed UInt8}
    (hparse : DmqHeader.parse fd.unbroken = some (h, body))
    (hlen : bufferSize < h.length.toNat)
    (hfd : fd'.symbols = body.map some ++ fd.interrupted) :
    Receives t ready fd (.failed (some h)) fd'
  | cut {h : DmqHeader} {body : List UInt8} {fd' : Feed UInt8}
    (hparse : DmqHeader.parse fd.unbroken = some (h, body))
    (hmark : h.marker = DmqHeader.markerValue) (hlen : h.length.toNat ≤ bufferSize)
    (hcut : body.length < h.length.toNat) (hfd : fd'.symbols = fd.interrupted.tail) :
    Receives t ready fd (disconnected (some h)) fd'
  | delivered {h : DmqHeader} {body : List UInt8} {fd' : Feed UInt8}
    (hparse : DmqHeader.parse fd.unbroken = some (h, body))
    (hmark : h.marker = DmqHeader.markerValue) (hlen : h.length.toNat ≤ bufferSize)
    (hbody : h.length.toNat ≤ body.length)
    (hfd : fd'.symbols = (body.drop h.length.toNat).map some ++ fd.interrupted) :
    Receives t ready fd (t.accepted h (body.take h.length.toNat)) fd'

theorem receiveSocket_spec (t : TcpTransport) (ready : Bool) (fd : Feed UInt8) :
    Receives t ready fd (t.receiveSocket ready fd).1 (t.receiveSocket ready fd).2 := by
  unfold receiveSocket
  by_cases hready : ready = false
  · rw [if_pos hready]
    exact .idle hready
  rw [if_neg hready]
  rcases Feed.readExact_cases fd.symbols_eq fd.head?_interrupted DmqHeader.headerSize with
    ⟨hle, fd₁, hread, hfd₁⟩ | ⟨hlt, fd₁, hread, hfd₁⟩
  · rw [hread]
    obtain ⟨h, hparse, htake⟩ := parse_of_le hle
    simp only [htake]
    by_cases hmark : h.marker = DmqHeader.markerValue
    · rw [if_neg (not_not.mpr hmark)]
      by_cases hzero : h.length = 0
      · rw [if_pos hzero]
        have hlen : h.length.toNat = 0 := by rw [hzero]; rfl
        have hdel : Receives t ready fd (t.accepted h ((fd.unbroken.drop _).take _)) fd₁ :=
          .delivered hparse hmark (by omega) (by omega) (by rw [hlen]; exact hfd₁)
        rwa [hlen, List.take_zero] at hdel
      · rw [if_neg hzero]
        by_cases hbig : bufferSize < h.length.toNat
        · rw [if_pos hbig]
          exact .oversize hparse hbig hfd₁
        · rw [if_neg hbig]
          -- what is unbroken behind the header is the body
          rcases Feed.readExact_cases hfd₁ fd.head?_interrupted h.length.toNat with
            ⟨hbody, fd₂, hread', hfd₂⟩ | ⟨hcut, fd₂, hread', hfd₂⟩
          · rw [hread']
            exact .delivered hparse hmark (not_lt.mp hbig) hbody hfd₂
          · rw [hread']
            exact .cut hparse hmark (not_lt.mp hbig) hcut hfd₂
    · rw [if_pos hmark]
      exact .misframed hparse hmark hfd₁
  · rw [hread]
    exact .noHeader (parse_of_lt hlt) hfd₁

end TcpTransport

/-! ## Success and completeness -/

/-- The frame announces the whole payload and has it. -/
def CarriesAll (payload frame : List UInt8) : Prop :=
  ∃ h, DmqHeader.parse frame = some (h, payload) ∧ h.length.toNat = payload.length

/-- A `Send` to so many sockets, with the code and the frames on the wires: if it
returns 0, each socket got the whole payload. -/
def FullSend (payload : List UInt8) (sockets : ℕ) (sent : ℤ × List (List UInt8)) : Prop :=
  sent.1 = 0 → sent.2.length = sockets ∧ ∀ frame ∈ sent.2, CarriesAll payload frame

/-- A `Receive` that returns 0 has appended what the header announces. -/
def FullReceive (r : UdpTransport.Received) : Prop :=
  r.code = 0 → ∃ h, r.header = some h ∧ r.payload.length = h.length.toNat

section Complete

variable {payload : List UInt8} {header : DmqHeader}

/-- The 16 bits of a length are within the buffer but not the length itself. -/
def Wraps (payload : List UInt8) : Prop :=
  65536 ≤ payload.length ∧
    payload.length % 65536 ≤ TcpTransport.bufferSize - DmqHeader.headerSize

theorem carriesAll_wireFrame_iff :
    CarriesAll payload (TcpTransport.wireFrame payload header) ↔ payload.length < 65536 := by
  unfold CarriesAll TcpTransport.wireFrame
  simp only [DmqHeader.parse_bytes, Option.some.injEq, Prod.mk.injEq, UInt16.toNat_ofNat']
  constructor
  · rintro ⟨h, ⟨rfl, -⟩, hlen⟩
    rw [UInt16.toNat_ofNat'] at hlen
    omega
  · intro hlt
    refine ⟨_, ⟨rfl, ?_⟩, ?_⟩
    · rw [Nat.mod_eq_of_lt (by omega), List.take_length]
    · rw [UInt16.toNat_ofNat', Nat.mod_eq_of_lt (by omega)]

namespace TcpTransport

/-- The sockets of a `Send`. -/
def receivers (t : TcpTransport) (connFd : Option Bool) (serverClients : List Bool) :
    List (Option Bool) :=
  match t.type with
  | .client => [connFd]
  | .server => serverClients.map some

theorem sendToSocket_of_sent (h : payload.length % 65536 ≤ bufferSize - DmqHeader.headerSize) :
    sendToSocket (some true) payload header = ⟨0, some (wireFrame payload header)⟩ := by
  have hlen : ¬ bufferSize - DmqHeader.headerSize < (UInt16.ofNat payload.length).toNat := by
    rw [UInt16.toNat_ofNat']
    omega
  simp only [sendToSocket, if_neg hlen, if_true]

theorem sendToSocket_of_refused {fd : Option Bool}
    (h : fd ≠ some true ∨ bufferSize - DmqHeader.headerSize < payload.length % 65536) :
    sendToSocket fd payload header = ⟨-1, none⟩ := by
  unfold sendToSocket
  cases fd with
  | none => rfl
  | some accepted =>
    by_cases hlen : bufferSize - DmqHeader.headerSize < (UInt16.ofNat payload.length).toNat
    · simp only [if_pos hlen]
    · rw [UInt16.toNat_ofNat'] at hlen
      have hacc : accepted = false := by
        rcases h with h | h
        · simpa using h
        · omega
      simp [hacc]

/-- What `Send` gives for a list of sockets. -/
def sendAll (fds : List (Option Bool)) (payload : List UInt8) (header : DmqHeader) :
    ℤ × List (List UInt8) :=
  let sent := fds.map fun fd => sendToSocket fd payload header
  (if ∃ s ∈ sent, s.code ≠ 0 then -1 else 0, sent.filterMap Sent.frame)

/-- A client is a transport with one socket. -/
theorem send_eq_sendAll (t : TcpTransport) (connFd : Option Bool) (serverClients : List Bool) :
    t.send connFd serverClients payload header =
      sendAll (t.receivers connFd serverClients) payload header := by
  unfold send receivers sendAll
  cases t.type with
  | server => simp only [List.map_map, Function.comp_def]
  | client =>
    by_cases h : connFd = some true ∧
        payload.length % 65536 ≤ bufferSize - DmqHeader.headerSize
    · rw [h.1]
      simp [sendToSocket_of_sent h.2]
    · have hrefused : connFd ≠ some true ∨
          bufferSize - DmqHeader.headerSize < payload.length % 65536 := by
        rw [← not_le]
        exact not_and_or.mp h
      simp [sendToSocket_of_refused hrefused]

theorem sendAll_of_sent {fds : List (Option Bool)} (hfds : ∀ fd ∈ fds, fd = some true)
    (h : payload.length % 65536 ≤ bufferSize - DmqHeader.headerSize) :
    sendAll fds payload header = (0, List.replicate fds.length (wireFrame payload header)) := by
  obtain ⟨n, rfl⟩ : ∃ n, fds = List.replicate n (some true) :=
    ⟨fds.length, List.eq_replicate_of_mem hfds⟩
  have hframes : ∀ sent : Sent, sent.frame = some (wireFrame payload header) →
      (List.replicate n sent).filterMap Sent.frame = List.replicate n (wireFrame payload header) :=
    fun sent hsent => List.filterMap_replicate_of_some hsent
  unfold sendAll
  dsimp only
  rw [List.map_replicate, sendToSocket_of_sent h, hframes _ rfl, List.length_replicate, if_neg]
  rintro ⟨s, hs, hcode⟩
  rw [List.eq_of_mem_replicate hs] at hcode
  exact hcode rfl

theorem sendAll_of_refused {fds : List (Option Bool)} {fd : Option Bool} (hfd : fd ∈ fds)
    (h : fd ≠ some true ∨ bufferSize - DmqHeader.headerSize < payload.length % 65536) :
    (sendAll fds payload header).1 = -1 := by
  unfold sendAll
  dsimp only
  rw [if_pos]
  refine ⟨_, List.mem_map_of_mem hfd, ?_⟩
  rw [sendToSocket_of_refused h]
  decide

/-- The one way to get 0 for a cut payload: its length wraps around to one that
fits, and the sockets take what is sent. -/
theorem fullSend_iff (t : TcpTransport) (connFd : Option Bool) (serverClients : List Bool) :
    FullSend payload (t.receivers connFd serverClients).length
        (t.send connFd serverClients payload header) ↔
      Wraps payload → t.receivers connFd serverClients ≠ [] →
        ∃ fd ∈ t.receivers connFd serverClients, fd ≠ some true := by
  rw [send_eq_sendAll]
  generalize t.receivers connFd serverClients = fds
  by_cases hall : ∀ fd ∈ fds, fd = some true
  · have hnone : ¬ ∃ fd ∈ fds, fd ≠ some true := by
      rintro ⟨fd, hfd, hne⟩
      exact hne (hall fd hfd)
    by_cases hfit : payload.length % 65536 ≤ bufferSize - DmqHeader.headerSize
    · rw [sendAll_of_sent hall hfit]
      unfold FullSend Wraps
      constructor
      · rintro hfull ⟨hlen, -⟩ hne
        have hmem : wireFrame payload header ∈
            List.replicate fds.length (wireFrame payload header) := by
          rw [List.mem_replicate]
          exact ⟨fun h => hne (List.eq_nil_of_length_eq_zero h), rfl⟩
        -- the frame of a cut payload does not carry all of it
        have hlt := carriesAll_wireFrame_iff.mp ((hfull rfl).2 _ hmem)
        omega
      · intro h _
        refine ⟨List.length_replicate, fun frame hframe => ?_⟩
        obtain ⟨hn, rfl⟩ := List.mem_replicate.mp hframe
        rw [carriesAll_wireFrame_iff]
        by_contra hlen
        exact hnone (h ⟨not_lt.mp hlen, hfit⟩ fun hnil => hn (by rw [hnil]; rfl))
    · constructor
      · rintro - ⟨-, hfit'⟩
        exact absurd hfit' hfit
      · intro _ hcode
        cases fds with
        | nil => exact ⟨rfl, fun _ h => absurd h (List.not_mem_nil)⟩
        | cons fd fds =>
          rw [sendAll_of_refused (List.mem_cons_self ..) (.inr (not_le.mp hfit))] at hcode
          cases hcode
  · obtain ⟨fd, hfd, hne⟩ : ∃ fd ∈ fds, fd ≠ some true := by
      simpa only [not_forall, exists_prop] using hall
    constructor
    · intro _ _ _
      exact ⟨fd, hfd, hne⟩
    · intro _ hcode
      rw [sendAll_of_refused hfd (.inl hne)] at hcode
      cases hcode

/-! ### Receiving -/

variable {π : Type}

theorem fullReceive_receiveSocket (t : TcpTransport) (ready : Bool) (fd : Feed UInt8) :
    FullReceive (t.receiveSocket ready fd).1 := by
  intro hcode
  have hspec := t.receiveSocket_spec ready fd
  generalize (t.receiveSocket ready fd).1 = r, (t.receiveSocket ready fd).2 = fd' at hspec hcode ⊢
  cases hspec with
  | idle => cases hcode
  | noHeader => cases hcode
  | misframed => cases hcode
  | oversize => cases hcode
  | cut => cases hcode
  | delivered hparse hmark hlen hbody hfd => exact ⟨_, rfl, List.length_take_of_le hbody⟩

theorem fullReceive_receiveClients (t : TcpTransport) (header : Option DmqHeader)
    (clients : List (TcpPoll × TcpConn π)) :
    FullReceive (t.receiveClients header clients).1 := by
  induction clients generalizing header with
  | nil => intro hcode; cases hcode
  | cons client clients ih =>
    unfold receiveClients
    by_cases hset : client.1.isSet
    · rw [if_pos hset]
      dsimp only
      by_cases hgone : (t.receiveSocket client.1.ready client.2.feed).1.code = -2
      · rw [if_pos hgone]
        exact ih _
      · rw [if_neg hgone]
        intro hcode
        obtain ⟨h, hh, hlen⟩ := t.fullReceive_receiveSocket _ _ hcode
        exact ⟨h, by rw [hh]; rfl, hlen⟩
    · rw [if_neg hset]
      exact ih header

theorem fullReceive_receive (t : TcpTransport) (client : Option (TcpConn π)) (poll : ℕ → TcpPoll)
    (s : Sockets π) : FullReceive (t.receive client poll s).1 := by
  unfold receive
  cases t.type with
  | server => exact t.fullReceive_receiveClients none _
  | client =>
    cases s.connFd with
    | none => intro hcode; cases hcode
    | some conn => exact t.fullReceive_receiveSocket _ _

end TcpTransport

/-! ### The UDP transport beside it -/

namespace UdpTransport

/-- `Send` with its code; `accepted` says whether `sendto` takes the datagram. -/
def sendTo (t : UdpTransport) (accepted : Bool) (payload : List UInt8) (header : DmqHeader) :
    ℤ × List (List UInt8) :=
  match t.send payload header with
  | none => (-1, [])
  | some datagram => if accepted then (0, [datagram]) else (-1, [])

/-- What makes `Send` fail whatever the payload is. -/
def Refuses (t : UdpTransport) (accepted : Bool) (header : DmqHeader) : Prop :=
  accepted = false ∨ t.type = .sub ∧ header.id ≠ ackRemoteId ∨ t.sendTransport ≠ .self

theorem sendTo_of_refuses {t : UdpTransport} {accepted : Bool} (h : t.Refuses accepted header) :
    (t.sendTo accepted payload header).1 = -1 := by
  unfold sendTo
  rcases h with rfl | hsub | hother
  · cases t.send payload header <;> rfl
  · simp only [send, if_pos hsub]
  · simp only [send, if_pos hother, ite_self]

/-- The length that is compared has 16 bits. -/
theorem sendTo_of_not_refuses {t : UdpTransport} {accepted : Bool}
    (h : ¬ t.Refuses accepted header) :
    t.sendTo accepted payload header =
      if payload.length % 65536 ≤ bufferSize - DmqHeader.headerSize then
        (0, [TcpTransport.wireFrame payload header])
      else (-1, []) := by
  obtain ⟨rfl, hsub, hself⟩ : accepted = true ∧ ¬ (t.type = .sub ∧ header.id ≠ ackRemoteId) ∧
      t.sendTransport = .self := by
    unfold Refuses at h
    simpa only [not_or, Bool.not_eq_false, not_not] using h
  have hlength : (UInt16.ofNat payload.length).toNat = payload.length % 65536 :=
    UInt16.toNat_ofNat'
  unfold sendTo send
  rw [if_neg hsub, if_neg (not_not.mpr hself)]
  dsimp only
  by_cases hfit : payload.length % 65536 ≤ bufferSize - DmqHeader.headerSize
  · rw [if_pos hfit, if_neg (by rw [hlength]; exact Nat.not_lt.mpr hfit)]
    rfl
  · rw [if_neg hfit, if_pos (by rw [hlength]; exact Nat.not_le.mp hfit)]

theorem fullSend_iff (t : UdpTransport) (accepted : Bool) :
    FullSend payload 1 (t.sendTo accepted payload header) ↔
      Wraps payload → t.Refuses accepted header := by
  by_cases hrefuse : t.Refuses accepted header
  · constructor
    · intro _ _
      exact hrefuse
    · intro _ h
      rw [sendTo_of_refuses hrefuse] at h
      cases h
  · rw [sendTo_of_not_refuses hrefuse]
    split
    · rename_i hfit
      have hall : CarriesAll payload (TcpTransport.wireFrame payload header) ↔
          payload.length < 65536 := carriesAll_wireFrame_iff
      have hcarries : FullSend payload 1 (0, [TcpTransport.wireFrame payload header]) ↔
          payload.length < 65536 := by
        rw [← hall]
        simp [FullSend]
      refine hcarries.trans ?_
      constructor
      · rintro hlt ⟨hle, -⟩
        omega
      · intro h
        by_contra hge
        exact hrefuse (h ⟨not_lt.mp hge, hfit⟩)
    · rename_i hfit
      constructor
      · rintro - ⟨-, hfit'⟩
        exact absurd hfit' hfit
      · intro _ h
        cases h

/-- A datagram that `Receive` takes has as many bytes as it announces. -/
def Whole (datagram : List UInt8) : Prop :=
  ∀ h body, DmqHeader.parse (datagram.take bufferSize) = some (h, body) →
    h.marker = DmqHeader.markerValue → h.length.toNat ≤ body.length

theorem fullReceive_iff (t : UdpTransport) (datagram : List UInt8) :
    FullReceive (t.receive datagram) ↔ (t.recvTransport = .self → Whole datagram) := by
  unfold FullReceive Whole receive
  by_cases hself : t.recvTransport = .self
  · rw [if_neg (not_not.mpr hself)]
    cases hparse : DmqHeader.parse (datagram.take bufferSize) with
    | none => simp [Received.failed]
    | some p =>
      obtain ⟨h, body⟩ := p
      dsimp only
      by_cases hmark : h.marker = DmqHeader.markerValue
      · rw [if_neg (not_not.mpr hmark)]
        simp [hself, hmark]
      · rw [if_pos hmark]
        simp [Received.failed, hmark]
  · rw [if_pos hself]
    simp [Received.failed, hself]

end UdpTransport

/-- Success is never a truncation, of either transport and in both directions,
but for two cases: a `Send` of a payload whose length wraps around in 16 bits to
one that fits, to sockets that take it; and a UDP `Receive` of a datagram that
announces more than it has. -/
theorem truncation_reported_iff {π : Type} (t : TcpTransport) (connFd : Option Bool)
    (serverClients : List Bool) (u : UdpTransport) (accepted : Bool) (payload : List UInt8)
    (header : DmqHeader) (datagram : List UInt8) (client : Option (TcpConn π))
    (poll : ℕ → TcpPoll) (s : TcpTransport.Sockets π) :
    (FullSend payload (t.receivers connFd serverClients).length
        (t.send connFd serverClients payload header) ↔
      ¬ (Wraps payload ∧ t.receivers connFd serverClients ≠ [] ∧
        ∀ fd ∈ t.receivers connFd serverClients, fd = some true)) ∧
    (FullSend payload 1 (u.sendTo accepted payload header) ↔
      ¬ (Wraps payload ∧ ¬ u.Refuses accepted header)) ∧
    (FullReceive (u.receive datagram) ↔
      (u.recvTransport = .self → UdpTransport.Whole datagram)) ∧
    FullReceive (t.receive client poll s).1 := by
  refine ⟨?_, ?_, u.fullReceive_iff datagram, t.fullReceive_receive client poll s⟩
  · rw [t.fullSend_iff]
    simp only [not_and, not_forall, exists_prop]
  · rw [u.fullSend_iff, not_and, not_not]

/-- 65536 zero bytes reach the wire as a header without a payload, and a
datagram that was cut behind its header is a message. -/
theorem truncation_not_reported :
    ¬ FullSend (List.replicate 65536 0) 1
        (TcpTransport.send ⟨.client, true, true⟩ (some true) [] (List.replicate 65536 0)
          (.make 1 1)) ∧
      ¬ FullReceive (UdpTransport.receive ⟨.sub, .self, .self, false⟩
        { DmqHeader.make 1 1 with length := 3 }.bytes) := by
  constructor
  · intro h
    have hwraps : Wraps (List.replicate 65536 0) := by
      unfold Wraps
      rw [List.length_replicate]
      decide
    obtain ⟨fd, hfd, hne⟩ := (TcpTransport.fullSend_iff _ (some true) []).mp h hwraps (by decide)
    exact hne (List.mem_singleton.mp hfd)
  · intro h
    have hwhole := (UdpTransport.fullReceive_iff _ _).mp h rfl
      { DmqHeader.make 1 1 with length := 3 } [] (by decide) rfl
    exact absurd hwhole (by decide)

end Complete

end AsyncSqlite
