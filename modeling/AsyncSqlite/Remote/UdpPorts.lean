import AsyncSqlite.Data.Stream
import AsyncSqlite.Remote.Transport

/-!
# AsyncSqlite.Remote.UdpPorts — datagrams between unlike ports

`Send` and `Receive` of the UDP transports under `port/transport`: linux-udp,
win32-udp, arm-lwip-udp, arm-lwip-netconn-udp, zephyr-udp and netx-udp. They put
the same bytes on the wire, and they differ in their buffers and in what they do
with a datagram that is too long for them: some cut it off and accept the rest,
others drop it. `udp_ports_interoperate` says what becomes of a payload between
any two of them.

Sockets are open, the calls of the network stack succeed, and there is memory for
packets. Addresses, timeouts and the error output are left out. NetX reads a
header through `uint16_t*`, the other ports copy two bytes at a time; both are
`DmqHeader.parse`.
-/

namespace AsyncSqlite

/-- The directories under `port/transport`. -/
inductive UdpPort
  | linux
  | win32
  | armLwip
  | armLwipNetconn
  | zephyr
  | netX
  deriving DecidableEq

namespace UdpPort

/-- `BUFFER_SIZE`; for NetX the local `buffer` of `Receive`. -/
def bufferSize : UdpPort → ℕ
  | .linux | .win32 => 4096
  | .armLwip | .armLwipNetconn | .zephyr | .netX => 1500

/-! ## Sending -/

/-- The length that `Send` writes for a payload, if it takes the payload. -/
def payloadLen (p : UdpPort) (payload : List UInt8) : Option UInt16 :=
  match p with
  | .netX => if 65535 < payload.length then none else some (UInt16.ofNat payload.length)
  | _ =>
    -- the length is cut to 16 bits before it is compared
    let n := UInt16.ofNat payload.length
    if p.bufferSize - DmqHeader.headerSize < n.toNat then none else some n

/-- `os.bad() || os.fail()`; linux-udp does not ask. -/
def refusesStream (p : UdpPort) (os : OStream) : Bool := p ≠ .linux && os.failbit

/-- The datagram that `Send` hands to the network stack. -/
def send (p : UdpPort) (t : UdpTransport) (os : OStream) (header : DmqHeader) :
    Option (List UInt8) :=
  if p.refusesStream os then none
  else if t.type = .sub ∧ header.id ≠ ackRemoteId then none
  else if t.sendTransport ≠ .self then none
  else (p.payloadLen os.buf).map fun n => { header with length := n }.bytes ++ os.buf.take n.toNat

/-! ## Receiving -/

/-- How `Receive` answers a frame. -/
inductive AckReply
  | none
  /-- `sendto` of `ackBuf` on the socket of the receiver -/
  | datagram (bytes : List UInt8)
  /-- `m_sendTransport->Send(ss_ack, ack)` -/
  | send (ack : DmqHeader)
  deriving DecidableEq

structure Received where
  code : ℤ
  header : Option DmqHeader
  /-- the stream that was passed, afterwards -/
  is : OStream
  /-- the argument of `m_transportMonitor->Remove` -/
  removed : Option UInt16
  ack : AckReply

def Received.failed (header : Option DmqHeader) (is : OStream) : Received :=
  ⟨-1, header, is, none, .none⟩

/-- What the port gets of a datagram. `recvfrom` cuts it off at the end of the
buffer, but on Windows it fails then (`WSAEMSGSIZE`); NetX asks for the length
first, and netconn has a `netbuf` for all of it. -/
def recvfrom (p : UdpPort) (datagram : List UInt8) : Option (List UInt8) :=
  match p with
  | .linux | .armLwip | .zephyr => some (datagram.take p.bufferSize)
  | .win32 | .netX => if p.bufferSize < datagram.length then none else some datagram
  | .armLwipNetconn => some datagram

/-- The check that the payload is as long as the header says. -/
def checksLength : UdpPort → Bool
  | .armLwipNetconn | .netX => true
  | _ => false

/-- `payloadSize`, and as many bytes from behind the header. -/
def extract (p : UdpPort) (body : List UInt8) (length : UInt16) : List UInt8 :=
  match p with
  | .armLwipNetconn => (body.take length.toNat).take p.bufferSize
  | _ => body.take length.toNat

/-- The payload goes to the stream; the embedded ports empty the stream first, all
but NetX only if there is a payload. -/
def writePayload (p : UdpPort) (is : OStream) (payload : List UInt8) : OStream :=
  match p with
  | .linux | .win32 => if payload = [] then is else is.write payload
  | .armLwip | .armLwipNetconn | .zephyr =>
    if payload = [] then is else (is.clear.str []).write payload
  | .netX => (is.clear.str []).write payload

/-- Who is answered, and over which transport. -/
def ackReply (p : UdpPort) (t : UdpTransport) (header : DmqHeader) : AckReply :=
  if header.id = ackRemoteId then .none
  else
    match p with
    | .linux | .win32 =>
      if t.sendTransport ≠ .null ∧ t.type = .sub then
        .datagram (UdpTransport.ackFrame header.seqNum)
      else .none
    | _ =>
      if t.monitored ∧ t.sendTransport ≠ .null then .send (.make ackRemoteId header.seqNum)
      else .none

def receive (p : UdpPort) (t : UdpTransport) (is : OStream) (datagram : List UInt8) : Received :=
  if t.recvTransport ≠ .self then .failed none is
  else match (p.recvfrom datagram).bind DmqHeader.parse with
  | none => .failed none is
  | some (header, body) =>
    if header.marker ≠ DmqHeader.markerValue then .failed (some header) is
    else if p.checksLength ∧ body.length < header.length.toNat then .failed (some header) is
    else
      { code := 0
        header := some header
        is := p.writePayload is (p.extract body header.length)
        removed := if header.id = ackRemoteId ∧ t.monitored then some header.seqNum else none
        ack := p.ackReply t header }

/-! ## One datagram -/

variable {p q : UdpPort} {t u : UdpTransport} {os : OStream} {header : DmqHeader}
  {datagram : List UInt8}

/-- What `Send` puts on the wire: the first bytes of the payload, as many as its
length is modulo 65536. -/
theorem send_spec (hsend : p.send t os header = some datagram) :
    ∃ n : UInt16, n.toNat = os.buf.length % 65536 ∧
      datagram = { header with length := n }.bytes ++ os.buf.take n.toNat := by
  unfold send at hsend
  split_ifs at hsend
  rcases Option.map_eq_some_iff.mp hsend with ⟨n, hn, rfl⟩
  refine ⟨n, ?_, rfl⟩
  have hcut : n = UInt16.ofNat os.buf.length := by
    cases p with
    | netX =>
      simp only [payloadLen] at hn
      split_ifs at hn
      exact (Option.some.inj hn).symm
    | _ =>
      simp only [payloadLen] at hn
      split_ifs at hn
      exact (Option.some.inj hn).symm
  rw [hcut, UInt16.toNat_ofNat']

/-- The longest payload that `Receive` hands over whole. -/
def capacity : UdpPort → ℕ
  | .linux | .win32 => 4088
  | .armLwip | .zephyr | .netX => 1492
  | .armLwipNetconn => 1500

/-- The port drops a datagram whose payload is longer. -/
def dropsLong : UdpPort → Bool
  | .win32 | .netX => true
  | _ => false

theorem take_frame (header : DmqHeader) (body : List UInt8) {n : ℕ} (hn : 8 ≤ n) :
    (header.bytes ++ body).take n = header.bytes ++ body.take (n - 8) := by
  have hlen := DmqHeader.length_bytes header
  rw [List.take_append, hlen]
  congr 1
  exact List.take_of_length_le (by rw [hlen]; exact hn)

/-- What the port gets of a frame: the header and as much of the payload as it has
room for. -/
theorem recvfrom_frame (header : DmqHeader) (body : List UInt8) :
    (q.recvfrom (header.bytes ++ body)).bind DmqHeader.parse =
      if q.dropsLong = true ∧ q.capacity < body.length then none
      else some (header, if q = .armLwipNetconn then body else body.take q.capacity) := by
  have hlen : (header.bytes ++ body).length = body.length + 8 := by
    rw [List.length_append, DmqHeader.length_bytes, DmqHeader.headerSize, Nat.add_comm]
  cases q with
  | linux | armLwip | zephyr =>
    simp [recvfrom, bufferSize, dropsLong, capacity, take_frame]
  | win32 =>
    simp only [recvfrom, hlen, bufferSize, dropsLong, capacity, true_and]
    by_cases hlong : 4088 < body.length
    · rw [if_pos (by omega), if_pos hlong, Option.bind_none]
    · rw [if_neg (by omega), if_neg hlong, Option.bind_some, DmqHeader.parse_bytes,
        if_neg (by decide), List.take_of_length_le (by omega)]
  | netX =>
    simp only [recvfrom, hlen, bufferSize, dropsLong, capacity, true_and]
    by_cases hlong : 1492 < body.length
    · rw [if_pos (by omega), if_pos hlong, Option.bind_none]
    · rw [if_neg (by omega), if_neg hlong, Option.bind_some, DmqHeader.parse_bytes,
        if_neg (by decide), List.take_of_length_le (by omega)]
  | armLwipNetconn => simp [recvfrom, dropsLong]

/-- `Receive` on a frame that is complete. -/
theorem receive_spec (hrecv : u.recvTransport = .self)
    (hmark : header.marker = DmqHeader.markerValue) {body : List UInt8}
    (hlen : body.length = header.length.toNat) (is : OStream) :
    q.receive u is (header.bytes ++ body) =
      if q.dropsLong = true ∧ q.capacity < body.length then .failed none is
      else
        { code := 0
          header := some header
          is := q.writePayload is (body.take q.capacity)
          removed := if header.id = ackRemoteId ∧ u.monitored then some header.seqNum else none
          ack := q.ackReply u header } := by
  unfold receive
  rw [if_neg (by simp [hrecv]), recvfrom_frame]
  by_cases hdrop : q.dropsLong = true ∧ q.capacity < body.length
  · rw [if_pos hdrop, if_pos hdrop]
  · rw [if_neg hdrop, if_neg hdrop]
    dsimp only
    have hpart : q.checksLength = true →
        ¬ (if q = .armLwipNetconn then body else body.take q.capacity).length <
          header.length.toNat := by
      intro hchecks
      cases q with
      | armLwipNetconn => simp [hlen]
      | netX =>
        have hshort : body.length ≤ 1492 := by
          by_contra hlong
          exact hdrop ⟨rfl, by simpa [capacity] using hlong⟩
        simp [capacity, ← hlen, hshort]
      | _ => exact absurd hchecks (by decide)
    have hextract : q.extract (if q = .armLwipNetconn then body else body.take q.capacity)
        header.length = body.take q.capacity := by
      cases q with
      | armLwipNetconn => simp [extract, capacity, bufferSize, ← hlen]
      | _ => simp [extract, List.take_take, ← hlen, Nat.min_comm]
    rw [if_neg (by simp [hmark]), if_neg (by simpa using hpart), hextract]

/-- The port is the one of `Remote.Transport`. -/
theorem send_linux : UdpPort.linux.send t os header = t.send os.buf header := by
  unfold send UdpTransport.send
  rw [if_neg (by simp [refusesStream])]
  split_ifs
  · rfl
  · rfl
  · have hlen : UdpPort.linux.payloadLen os.buf =
        if UdpTransport.bufferSize - DmqHeader.headerSize < (UInt16.ofNat os.buf.length).toNat then
          none
        else some (UInt16.ofNat os.buf.length) := rfl
    rw [hlen]
    dsimp only
    split_ifs
    · rfl
    · rfl

theorem receive_linux (is : OStream) :
    (UdpPort.linux.receive u is datagram).code = (u.receive datagram).code ∧
      (UdpPort.linux.receive u is datagram).header = (u.receive datagram).header ∧
      (UdpPort.linux.receive u is datagram).is = is.write (u.receive datagram).payload ∧
      (UdpPort.linux.receive u is datagram).removed = (u.receive datagram).removed := by
  have hnil : is.write [] = is := by
    simp [OStream.write]
  have hbytes : (UdpPort.linux.recvfrom datagram).bind DmqHeader.parse =
      DmqHeader.parse (datagram.take UdpTransport.bufferSize) := rfl
  unfold receive UdpTransport.receive
  rw [hbytes]
  by_cases hrecv : u.recvTransport ≠ .self
  · rw [if_pos hrecv, if_pos hrecv]
    exact ⟨rfl, rfl, hnil.symm, rfl⟩
  rw [if_neg hrecv, if_neg hrecv]
  cases DmqHeader.parse (datagram.take UdpTransport.bufferSize) with
  | none => exact ⟨rfl, rfl, hnil.symm, rfl⟩
  | some frame =>
    rcases frame with ⟨header, body⟩
    dsimp only
    by_cases hmark : header.marker ≠ DmqHeader.markerValue
    · rw [if_pos hmark, if_pos hmark]
      exact ⟨rfl, rfl, hnil.symm, rfl⟩
    rw [if_neg hmark, if_neg hmark, if_neg (by simp [checksLength])]
    refine ⟨rfl, rfl, ?_, rfl⟩
    change (if body.take header.length.toNat = [] then is else is.write _) = _
    by_cases hempty : body.take header.length.toNat = []
    · rw [if_pos hempty, hempty, hnil]
    · exact if_neg hempty

theorem buf_writePayload (q : UdpPort) (payload : List UInt8) :
    (q.writePayload .fresh payload).buf = payload := by
  have hput : (OStream.fresh.write payload).buf = payload := by
    simp [OStream.write, OStream.put, OStream.fresh, overwrite]
  have hfresh : OStream.fresh.clear.str [] = OStream.fresh := rfl
  cases q with
  | netX => rw [writePayload, hfresh, hput]
  | _ =>
    unfold writePayload
    simp only [hfresh]
    split_ifs with hnil
    · rw [hnil]
      rfl
    · exact hput

end UdpPort

open UdpPort

/-! ## Between two ports -/

/-- A message from any port to any other: what arrives is the beginning of its
payload. All of it arrives if it fits the receiver, and nothing does if the receiver
drops what is too long for it; else the rest is cut off, and the message is accepted
and answered as if it were whole. -/
theorem udp_ports_interoperate {p q : UdpPort} {t u : UdpTransport} {os : OStream}
    {header : DmqHeader} {datagram : List UInt8} {r : UdpPort.Received}
    (hsend : p.send t os header = some datagram) (hmark : header.marker = DmqHeader.markerValue)
    (hrecv : u.recvTransport = .self) (hr : q.receive u .fresh datagram = r) :
    (r.code = 0 ∧ r.is.buf = os.buf ↔ os.buf.length ≤ q.capacity) ∧
      (r.code = -1 ↔ q.dropsLong = true ∧ q.capacity < os.buf.length % 65536) ∧
      r.is.buf <+: os.buf ∧
      (r.code = 0 → r.ack = q.ackReply u header ∧
        ∃ n, r.header = some { header with length := n }) := by
  rcases send_spec hsend with ⟨n, hn, rfl⟩
  have hle : os.buf.length % 65536 ≤ os.buf.length := Nat.mod_le _ _
  have hlen : (os.buf.take n.toNat).length = n.toNat := by
    rw [List.length_take, hn]
    omega
  have hcap : q.capacity < 65536 := by
    cases q <;> decide
  have hmark' : ({ header with length := n } : DmqHeader).marker = DmqHeader.markerValue := hmark
  rw [receive_spec (q := q) hrecv hmark' hlen .fresh, hlen, hn] at hr
  by_cases hdrop : q.dropsLong = true ∧ q.capacity < os.buf.length % 65536
  · -- dropped
    rw [if_pos hdrop] at hr
    subst hr
    refine ⟨?_, ⟨fun _ => hdrop, fun _ => rfl⟩, List.nil_prefix, ?_⟩
    · constructor
      · rintro ⟨hcode, -⟩
        exact absurd hcode (by decide)
      · intro hfits
        omega
    · intro hcode
      exact absurd hcode (by decide)
  · rw [if_neg hdrop] at hr
    subst hr
    refine ⟨?_, ?_, ?_, ?_⟩
    · rw [buf_writePayload]
      constructor
      · rintro ⟨-, hwhole⟩
        have hcut := congrArg List.length hwhole
        rw [List.length_take, List.length_take] at hcut
        omega
      · intro hfits
        refine ⟨rfl, ?_⟩
        rw [Nat.mod_eq_of_lt (by omega), List.take_length, List.take_of_length_le hfits]
    · exact ⟨fun hfailed => absurd hfailed (by simp), fun h => absurd h hdrop⟩
    · rw [buf_writePayload]
      exact (List.take_prefix _ _).trans (List.take_prefix _ _)
    · intro _
      refine ⟨?_, n, rfl⟩
      cases q <;> rfl

/-- A payload of 2000 bytes that linux-udp sends whole and a lwIP port cuts off. -/
theorem udp_ports_interoperate_cut :
    ∃ (os : OStream) (datagram : List UInt8) (r : UdpPort.Received), os.buf.length = 2000 ∧
      UdpPort.linux.send ⟨.pub, .self, .self, true⟩ os (.make 7 1) = some datagram ∧
      (r.code = 0 ∧ r.is.buf = os.buf ↔ os.buf.length ≤ UdpPort.armLwip.capacity) ∧
      (r.code = -1 ↔
        UdpPort.armLwip.dropsLong = true ∧ UdpPort.armLwip.capacity < os.buf.length % 65536) ∧
      r.is.buf <+: os.buf ∧
      (r.code = 0 → r.ack = UdpPort.armLwip.ackReply ⟨.sub, .self, .self, true⟩ (.make 7 1) ∧
        ∃ n, r.header = some { DmqHeader.make 7 1 with length := n }) := by
  have hos : ∃ os : OStream, os.buf.length = 2000 ∧ os.failbit = false :=
    ⟨⟨List.replicate 2000 1, 0, false, Nat.zero_le _⟩, List.length_replicate, rfl⟩
  rcases hos with ⟨os, hlen, hgood⟩
  have hsend : UdpPort.linux.send ⟨.pub, .self, .self, true⟩ os (.make 7 1) =
      some ({ DmqHeader.make 7 1 with length := 2000 }.bytes ++ os.buf.take 2000) := by
    have hn : UdpPort.linux.payloadLen os.buf = some 2000 := by
      unfold payloadLen
      rw [hlen]
      rfl
    unfold UdpPort.send
    rw [hn, if_neg (by simp [refusesStream])]
    rfl
  exact ⟨os, _, _, hlen, hsend, udp_ports_interoperate hsend rfl rfl rfl⟩

end AsyncSqlite
