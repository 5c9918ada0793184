import AsyncSqlite.Remote.Status

/-!
# AsyncSqlite.Remote.Transport — frames, acknowledgements and whom they credit

`DmqHeader` and its eight bytes on the wire, `LinuxUdpTransport::Send` and
`LinuxUdpTransport::Receive`. The socket, the addresses and the error output are
left out: `send` gives the datagram that goes to `sendto`, `receive` takes the
one that `recvfrom` returned.

An acknowledgement carries the sequence number of the frame it answers and the
reserved id, so the sender's monitor has to find the message by its number
alone. `ack_credited_iff` says when it finds the right one.
-/

namespace AsyncSqlite

/-! ## Headers -/

structure DmqHeader where
  marker : UInt16
  id : UInt16
  seqNum : UInt16
  length : UInt16
  deriving DecidableEq

namespace DmqHeader

/-- `MARKER` -/
def markerValue : UInt16 := 0xAA55

/-- `HEADER_SIZE` -/
def headerSize : ℕ := 8

/-- `DmqHeader(id, seqNum, length = 0)` -/
def make (id seqNum : UInt16) : DmqHeader := ⟨markerValue, id, seqNum, 0⟩

end DmqHeader

/-- The bytes that `htons` leaves in memory: high byte first. -/
def htons (n : UInt16) : List UInt8 := [(n >>> 8).toUInt8, n.toUInt8]

def ntohs (hi lo : UInt8) : UInt16 := hi.toUInt16 <<< 8 ||| lo.toUInt16

@[simp] theorem ntohs_htons (n : UInt16) : ntohs (n >>> 8).toUInt8 n.toUInt8 = n := by
  apply UInt16.toNat_inj.mp
  have hlt : n.toNat < 65536 := n.toNat_lt
  have height : (8 : UInt16).toNat % 16 = 8 := rfl
  have hlow : n.toNat % 2 ^ 8 < 2 ^ 8 := Nat.mod_lt _ (by decide)
  simp only [ntohs, UInt16.toNat_or, UInt16.toNat_shiftLeft, UInt8.toNat_toUInt16,
    UInt16.toNat_toUInt8, UInt16.toNat_shiftRight, height]
  have hhigh : (n.toNat >>> 8 % 2 ^ 8) <<< 8 < 2 ^ 16 := by
    rw [Nat.shiftLeft_eq]
    omega
  rw [Nat.mod_eq_of_lt hhigh, ← Nat.shiftLeft_add_eq_or_of_lt hlow, Nat.shiftLeft_eq,
    Nat.shiftRight_eq_div_pow]
  omega

/-- The eight bytes in front of a payload. -/
def DmqHeader.bytes (h : DmqHeader) : List UInt8 :=
  htons h.marker ++ htons h.id ++ htons h.seqNum ++ htons h.length

/-- Read the fields of a header that is complete. -/
def DmqHeader.parse : List UInt8 → Option (DmqHeader × List UInt8)
  | m₀ :: m₁ :: i₀ :: i₁ :: s₀ :: s₁ :: l₀ :: l₁ :: body =>
    some (⟨ntohs m₀ m₁, ntohs i₀ i₁, ntohs s₀ s₁, ntohs l₀ l₁⟩, body)
  | _ => none

theorem DmqHeader.length_bytes (h : DmqHeader) : h.bytes.length = headerSize := rfl

@[simp] theorem DmqHeader.parse_bytes (h : DmqHeader) (body : List UInt8) :
    parse (h.bytes ++ body) = some (h, body) := by
  simp only [bytes, htons, List.cons_append, List.nil_append, parse, ntohs_htons]

/-! ## `LinuxUdpTransport` -/

inductive UdpType
  | pub
  | sub
  deriving DecidableEq

/-- What a transport pointer refers to, seen from the transport itself. -/
inductive TransportRef
  | null
  | self
  | other
  deriving DecidableEq

structure UdpTransport where
  type : UdpType
  sendTransport : TransportRef
  recvTransport : TransportRef
  /-- `m_transportMonitor` is set -/
  monitored : Bool

namespace UdpTransport

/-- `BUFFER_SIZE` -/
def bufferSize : ℕ := 4096

/-- The datagram that `Send` hands to `sendto`, or `none` if it refuses. -/
def send (t : UdpTransport) (payload : List UInt8) (header : DmqHeader) : Option (List UInt8) :=
  if t.type = .sub ∧ header.id ≠ ackRemoteId then none
  else if t.sendTransport ≠ .self then none
  else
    -- the length is cut to 16 bits, and only that many bytes are sent
    let payloadLen := UInt16.ofNat payload.length
    if bufferSize - DmqHeader.headerSize < payloadLen.toNat then none
    else some ({ header with length := payloadLen }.bytes ++ payload.take payloadLen.toNat)

/-- What `Receive` does with a datagram. -/
structure Received where
  code : ℤ
  header : Option DmqHeader
  payload : List UInt8
  /-- the argument of `m_transportMonitor->Remove` -/
  removed : Option UInt16
  /-- the datagram that is sent back -/
  reply : Option (List UInt8)
  deriving DecidableEq

def Received.failed (header : Option DmqHeader) : Received := ⟨-1, header, [], none, none⟩

/-- The acknowledgement of a frame, `ackBuf`. -/
def ackFrame (seqNum : UInt16) : List UInt8 :=
  { DmqHeader.make ackRemoteId seqNum with length := 0 }.bytes

def receive (t : UdpTransport) (datagram : List UInt8) : Received :=
  if t.recvTransport ≠ .self then .failed none
  else match DmqHeader.parse (datagram.take bufferSize) with
  | none => .failed none
  | some (header, body) =>
    if header.marker ≠ DmqHeader.markerValue then .failed (some header)
    else
      { code := 0
        header := some header
        payload := body.take header.length.toNat
        removed :=
          if header.id = ackRemoteId ∧ t.monitored then some header.seqNum else none
        reply :=
          if header.id ≠ ackRemoteId ∧ t.sendTransport ≠ .null ∧ t.type = .sub then
            some (ackFrame header.seqNum)
          else none }

theorem parse_take (h : DmqHeader) (body : List UInt8) :
    DmqHeader.parse ((h.bytes ++ body).take bufferSize) =
      some (h, body.take (bufferSize - DmqHeader.headerSize)) := by
  have htake : h.bytes.take bufferSize = h.bytes :=
    List.take_of_length_le (by rw [DmqHeader.length_bytes]; decide)
  rw [List.take_append, htake, DmqHeader.parse_bytes, DmqHeader.length_bytes]

/-- A frame that `Send` made is answered with its own number. -/
theorem reply_send {sender receiver : UdpTransport} {payload frame ack : List UInt8}
    {header : DmqHeader} (hsend : sender.send payload header = some frame)
    (hreply : (receiver.receive frame).reply = some ack) : ack = ackFrame header.seqNum := by
  obtain ⟨h', body, rfl, hseq⟩ : ∃ (h' : DmqHeader) (body : List UInt8),
      frame = h'.bytes ++ body ∧ h'.seqNum = header.seqNum := by
    unfold send at hsend
    dsimp only at hsend
    split_ifs at hsend
    exact ⟨_, _, (Option.some.inj hsend).symm, rfl⟩
  unfold receive at hreply
  split_ifs at hreply
  · cases hreply
  · rw [parse_take] at hreply
    dsimp only at hreply
    by_cases hmark : h'.marker = DmqHeader.markerValue
    · rw [if_neg (not_not.mpr hmark)] at hreply
      have hack := (Option.ite_none_right_eq_some.mp hreply).2
      rw [← hseq]
      exact (Option.some.inj hack).symm
    · rw [if_pos hmark] at hreply
      cases hreply

/-- The sender's `Receive` passes the number of an acknowledgement on. -/
theorem removed_ackFrame {t : UdpTransport} {seqNum : UInt16}
    (h : t.recvTransport = .self) (hm : t.monitored = true) :
    (t.receive (ackFrame seqNum)).removed = some seqNum := by
  have hparse := parse_take { DmqHeader.make ackRemoteId seqNum with length := 0 } []
  rw [List.append_nil] at hparse
  unfold receive ackFrame
  rw [hparse]
  simp [h, hm, DmqHeader.make]

end UdpTransport

/-! ## Whom an acknowledgement credits -/

namespace MonitorSys

variable {cfg : MonitorConfig} {s : MonitorSys cfg}

/-- The monitor's part of `Receive`: `Remove(seqNum)` with the default id. -/
def acknowledge (s : MonitorSys cfg) (r : UdpTransport.Received) : MonitorSys cfg :=
  match r.removed with
  | some seqNum => s.remove seqNum 0
  | none => s

/-- `s'` reports success for `d` and has every other entry pending. -/
structure Credits (s s' : MonitorSys cfg) (d : TimeoutData) : Prop where
  report : s'.emission s.begun = some ⟨d.remoteId, d.seqNum, .success⟩
  gone : s'.pending.map.find? d.key = none
  kept : ∀ k, k ≠ d.key → s'.pending.map.find? k = s.pending.map.find? k

/-- The lookup by number alone finds the entry with the smallest remote id. -/
theorem lookup_seqNum_iff (p : Pending cfg) {d : TimeoutData} (hd : d ∈ p.data) :
    p.lookup d.seqNum 0 = some d ↔
      ∀ e ∈ p.data, e.seqNum = d.seqNum → d.remoteId ≤ e.remoteId := by
  have hdmem : (d.key, d) ∈ p.map.entries :=
    OrderedMap.mem_entries.mpr (Pending.mem_data.mp hd)
  have hfirst := OrderedMap.find?_entries_eq_some (m := p.map) (e := (d.key, d))
    (p := fun e => decide (e.2.seqNum = d.seqNum))
  have hlookup : p.lookup d.seqNum 0 = some d ↔
      (p.map.entries.find? fun e => decide (e.2.seqNum = d.seqNum)) = some (d.key, d) := by
    unfold Pending.lookup
    rw [if_neg (by simp), Option.map_eq_some_iff]
    constructor
    · rintro ⟨⟨k, d'⟩, he, rfl⟩
      have hk : k = d'.key := p.keyed _ (List.mem_of_find?_eq_some he)
      rw [← hk]
      exact he
    · intro he
      exact ⟨_, he, rfl⟩
  rw [hlookup, hfirst]
  -- among entries with one number the keys are ordered as the remote ids are
  have hkey : ∀ e : TimeoutData, e.seqNum = d.seqNum →
      (d.key ≤ e.key ↔ d.remoteId ≤ e.remoteId) := by
    intro e he
    unfold TimeoutData.key
    rw [sendKey_eq, sendKey_eq, he, UInt16.le_iff_toNat_le]
    omega
  constructor
  · rintro ⟨-, -, hmin⟩ e he hseq
    have hmem : (e.key, e) ∈ p.map.entries :=
      OrderedMap.mem_entries.mpr (Pending.mem_data.mp he)
    exact (hkey e hseq).mp (hmin _ hmem (by simpa using hseq))
  · intro h
    refine ⟨hdmem, by simp, fun e he hseq => ?_⟩
    have hdata : e.2 ∈ p.data := List.mem_map_of_mem he
    have hseq' : e.2.seqNum = d.seqNum := by simpa using hseq
    rw [p.keyed e he]
    exact (hkey e.2 hseq').mpr (h e.2 hdata hseq')

/-- The acknowledgement that a peer sends for the frame of a pending message
credits this message if and only if no pending message with the same number has
a smaller remote id. -/
theorem ack_credited_iff {sender receiver : UdpTransport} {payload frame ack : List UInt8}
    {d : TimeoutData} (hd : d ∈ s.pending.data)
    (hsend : sender.send payload (.make d.remoteId d.seqNum) = some frame)
    (hreply : (receiver.receive frame).reply = some ack)
    (hrecv : sender.recvTransport = .self) (hmon : sender.monitored = true) :
    Credits s (s.acknowledge (sender.receive ack)) d ↔
      ∀ e ∈ s.pending.data, e.seqNum = d.seqNum → d.remoteId ≤ e.remoteId := by
  have hack : s.acknowledge (sender.receive ack) = s.remove d.seqNum 0 := by
    unfold acknowledge
    rw [UdpTransport.reply_send hsend hreply, UdpTransport.removed_ackFrame hrecv hmon]
    rfl
  rw [hack, ← lookup_seqNum_iff s.pending hd]
  constructor
  · intro h
    cases hl : s.pending.lookup d.seqNum 0 with
    | none =>
      have hreport := h.report
      unfold MonitorSys.remove at hreport
      rw [Pending.remove_of_none hl] at hreport
      simp [emission] at hreport
    | some e =>
      have hreport := h.report
      unfold MonitorSys.remove at hreport
      rw [Pending.remove_of_some hl] at hreport
      obtain ⟨hfind, hnum, -⟩ := Pending.lookup_some hl
      -- the report names the message itself, so the lookup has found it
      have hid : e.remoteId = d.remoteId := by simpa [emission] using hreport
      have hkey : e.key = d.key := by
        unfold TimeoutData.key
        rw [hid, hnum]
      rw [hkey, Pending.mem_data.mp hd] at hfind
      exact hfind.symm
  · intro hl
    unfold MonitorSys.remove
    rw [Pending.remove_of_some hl]
    refine ⟨by simp [emission], ?_, fun k hk => ?_⟩
    · rw [Pending.find?_erase, if_pos rfl]
    · rw [Pending.find?_erase, if_neg hk]

/-- A publisher that polls its own socket, and the subscriber it sends to. -/
def publisher : UdpTransport := ⟨.pub, .self, .self, true⟩

def subscriber : UdpTransport := ⟨.sub, .self, .self, false⟩

/-- Number 7 is in flight for the ids 2 and 1: the counter has wrapped in
between. -/
def wrappedRun : List MonitorLabel := [MonitorLabel.add 7 2 0, .add 7 1 1900]

theorem ack_credited_iff_run : ∃ s : MonitorSys .default,
    (monitorLts .default).Reachable s ∧ ⟨2, 7, 0⟩ ∈ s.pending.data ∧
      Credits s (s.acknowledge (publisher.receive (UdpTransport.ackFrame 7))) ⟨1, 7, 1900⟩ := by
  obtain ⟨s, hs, hp⟩ := (monitorLts .default).execWhen_reachable Lts.always rfl wrappedRun
    (fun s => s.pending.data = [⟨1, 7, 1900⟩, ⟨2, 7, 0⟩]) (by decide)
  have hdata : s.pending.data = [⟨1, 7, 1900⟩, ⟨2, 7, 0⟩] := of_decide_eq_true hp
  refine ⟨s, hs, by simp [hdata], ?_⟩
  have hsend : publisher.send [42] (.make 1 7) =
      some ((DmqHeader.make 1 7).bytes.take 7 ++ [1, 42]) := by decide
  have hreply : (subscriber.receive ((DmqHeader.make 1 7).bytes.take 7 ++ [1, 42])).reply =
      some (UdpTransport.ackFrame 7) := by decide
  have hmem : (⟨1, 7, 1900⟩ : TimeoutData) ∈ s.pending.data := by simp [hdata]
  refine (ack_credited_iff hmem hsend hreply rfl rfl).mpr ?_
  rw [hdata]
  decide

/-- The acknowledgement of the message for id 2 credits the one for id 1. -/
theorem ack_credits_other : ∃ s : MonitorSys .default, ∃ frame ack : List UInt8,
    (monitorLts .default).Reachable s ∧ ⟨2, 7, 0⟩ ∈ s.pending.data ∧
      publisher.send [42] (.make 2 7) = some frame ∧
      (subscriber.receive frame).reply = some ack ∧
      ¬ Credits s (s.acknowledge (publisher.receive ack)) ⟨2, 7, 0⟩ := by
  obtain ⟨s, hs, hp⟩ := (monitorLts .default).execWhen_reachable Lts.always rfl wrappedRun
    (fun s => s.pending.data = [⟨1, 7, 1900⟩, ⟨2, 7, 0⟩] ∧
      (s.acknowledge (publisher.receive (UdpTransport.ackFrame 7))).emission s.begun =
        some ⟨1, 7, .success⟩) (by decide)
  obtain ⟨hdata, hemit⟩ := of_decide_eq_true hp
  refine ⟨s, (DmqHeader.make 2 7).bytes.take 7 ++ [1, 42], UdpTransport.ackFrame 7, hs,
    by simp [hdata], by decide, by decide, fun h => ?_⟩
  rw [h.report] at hemit
  cases hemit

end MonitorSys

end AsyncSqlite
