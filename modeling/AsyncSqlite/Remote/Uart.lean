import AsyncSqlite.Remote.Serial

/-!
# AsyncSqlite.Remote.Uart — the same frames over an interrupt-driven UART

`Stm32UartTransport::Receive` over the bytes that the interrupt handler puts
into the ring buffer, none of them lost. A read waits for a byte for ever, so a
call either returns or is still waiting when the bytes are used up.

The sync loop looks for the first marker byte only; the second one is checked
with the header, of which all eight bytes are gone by then.
-/

namespace AsyncSqlite

structure Stm32UartTransport where
  sendTransport : TransportRef
  recvTransport : TransportRef
  /-- `m_transportMonitor` is set -/
  monitored : Bool

namespace Stm32UartTransport

open SerialTransport (crcOfBytes crcBytes frame)

/-- `BUFFER_SIZE` -/
def bufferSize : ℕ := 512

/-- So many `ReadByteBlocked`; `none` while they wait. -/
def readBlocked (n : ℕ) (l : List UInt8) : Option (List UInt8 × List UInt8) :=
  if n ≤ l.length then some (l.take n, l.drop n) else none

/-- The sync loop, up to the byte behind the first marker byte. -/
def syncLoop : List UInt8 → Option (List UInt8)
  | [] => none
  | b :: l => if b = 0xAA then some l else syncLoop l

def accepted (t : Stm32UartTransport) (header : DmqHeader) (payload : List UInt8) :
    LineReceived where
  code := 0
  header := some header
  payload := payload
  removed := if header.id = ackRemoteId ∧ t.monitored then some header.seqNum else none
  ack :=
    if header.id ≠ ackRemoteId ∧ t.monitored ∧ t.sendTransport ≠ .null then
      some (.make ackRemoteId header.seqNum)
    else none

/-- `Receive` behind the header. -/
def receiveBody (t : Stm32UartTransport) (header : DmqHeader) (headerBuf l : List UInt8) :
    Option (LineReceived × List UInt8) := do
  if header.marker ≠ DmqHeader.markerValue then return (.failed (some header) [], l)
  if bufferSize < header.length.toNat then return (.failed (some header) [], l)
  let (payload, l) ← readBlocked header.length.toNat l
  let (receivedCrc, l) ← readBlocked 2 l
  if crcOfBytes receivedCrc ≠ crc16CalcBlock payload (crc16CalcBlock headerBuf 0xFFFF) then
    return (.failed (some header) payload, l)
  return (t.accepted header payload, l)

/-- `Receive` behind the first marker byte. -/
def receiveFrame (t : Stm32UartTransport) (l : List UInt8) :
    Option (LineReceived × List UInt8) := do
  let (rest, l) ← readBlocked (DmqHeader.headerSize - 1) l
  match DmqHeader.parse (0xAA :: rest) with
  -- eight bytes always parse
  | none => return (.failed none [], l)
  | some (header, _) => t.receiveBody header (0xAA :: rest) l

/-- `Receive`; `none` while it waits for a byte. -/
def receive (t : Stm32UartTransport) (l : List UInt8) : Option (LineReceived × List UInt8) := do
  if t.recvTransport ≠ .self then return (.failed none [], l)
  t.receiveFrame (← syncLoop l)

/-! ## Reads -/

theorem readBlocked_append {n : ℕ} {xs l : List UInt8} (h : xs.length = n) :
    readBlocked n (xs ++ l) = some (xs, l) := by
  have hle : n ≤ (xs ++ l).length := by
    rw [List.length_append]
    omega
  rw [readBlocked, if_pos hle, List.take_left' h, List.drop_left' h]

theorem readBlocked_some {n : ℕ} {l xs l' : List UInt8} (h : readBlocked n l = some (xs, l')) :
    l = xs ++ l' ∧ xs.length = n := by
  unfold readBlocked at h
  by_cases hle : n ≤ l.length
  · rw [if_pos hle] at h
    cases h
    exact ⟨(List.take_append_drop n l).symm, List.length_take_of_le hle⟩
  · rw [if_neg hle] at h
    cases h

theorem syncLoop_length {l l' : List UInt8} (h : syncLoop l = some l') :
    l'.length + 1 ≤ l.length := by
  induction l with
  | nil => cases h
  | cons b l ih =>
    rw [syncLoop] at h
    rw [List.length_cons]
    by_cases hb : b = 0xAA
    · rw [if_pos hb] at h
      cases h
      exact le_rfl
    · rw [if_neg hb] at h
      exact (ih h).trans (Nat.le_succ _)

/-! ## What a call takes -/

/-- No call gives bytes back, and one that succeeds has read so many bytes and
the payload. -/
structure Takes (bytes : ℕ) (l : List UInt8) (r : LineReceived) (l' : List UInt8) : Prop where
  le : l'.length ≤ l.length
  success : r.code = 0 → l'.length + bytes + r.payload.length ≤ l.length

theorem Takes.failed {bytes : ℕ} {l l' : List UInt8} {header : Option DmqHeader}
    {payload : List UInt8} (hle : l'.length ≤ l.length) :
    Takes bytes l (.failed header payload) l' :=
  ⟨hle, fun h => by cases h⟩

theorem receiveBody_takes {t : Stm32UartTransport} {h : DmqHeader} {headerBuf l l' : List UInt8}
    {r : LineReceived} (hcall : t.receiveBody h headerBuf l = some (r, l')) :
    Takes 2 l r l' := by
  unfold receiveBody at hcall
  by_cases hmark : h.marker ≠ DmqHeader.markerValue
  · rw [if_pos hmark] at hcall
    cases hcall
    exact .failed le_rfl
  rw [if_neg hmark] at hcall
  by_cases hbuf : bufferSize < h.length.toNat
  · rw [if_pos hbuf] at hcall
    cases hcall
    exact .failed le_rfl
  rw [if_neg hbuf] at hcall
  obtain ⟨⟨payload, l₁⟩, hread₁, hcall₁⟩ := Option.bind_eq_some_iff.mp hcall
  obtain ⟨⟨receivedCrc, l₂⟩, hread₂, hcall₂⟩ := Option.bind_eq_some_iff.mp hcall₁
  clear hcall hcall₁
  obtain ⟨rfl, -⟩ := readBlocked_some hread₁
  obtain ⟨rfl, hcrclen⟩ := readBlocked_some hread₂
  have hle : l₂.length ≤ (payload ++ (receivedCrc ++ l₂)).length := by
    simp only [List.length_append]
    omega
  dsimp only at hcall₂
  by_cases hcrc : crcOfBytes receivedCrc ≠
      crc16CalcBlock payload (crc16CalcBlock headerBuf 0xFFFF)
  · rw [if_pos hcrc] at hcall₂
    cases hcall₂
    exact .failed hle
  · rw [if_neg hcrc] at hcall₂
    cases hcall₂
    refine ⟨hle, fun _ => ?_⟩
    simp only [List.length_append, accepted]
    omega

theorem receive_takes {t : Stm32UartTransport} {l l' : List UInt8} {r : LineReceived}
    (hcall : t.receive l = some (r, l')) : Takes 10 l r l' := by
  unfold receive at hcall
  by_cases hself : t.recvTransport ≠ .self
  · rw [if_pos hself] at hcall
    cases hcall
    exact .failed le_rfl
  rw [if_neg hself] at hcall
  obtain ⟨l₁, hsync, hcall₁⟩ := Option.bind_eq_some_iff.mp hcall
  have hone := syncLoop_length hsync
  obtain ⟨⟨rest, l₂⟩, hread, hcall₂⟩ := Option.bind_eq_some_iff.mp hcall₁
  clear hcall hcall₁
  obtain ⟨rfl, hrest⟩ := readBlocked_some hread
  rw [DmqHeader.headerSize] at hrest
  rw [List.length_append, hrest] at hone
  dsimp only at hcall₂
  cases hparse : DmqHeader.parse (0xAA :: rest) with
  | none =>
    rw [hparse] at hcall₂
    cases hcall₂
    exact .failed (by omega)
  | some p =>
    obtain ⟨h, body⟩ := p
    rw [hparse] at hcall₂
    obtain ⟨hle, hsuccess⟩ := receiveBody_takes hcall₂
    refine ⟨by omega, fun hcode => ?_⟩
    have hcount := hsuccess hcode
    omega

/-! ## What a call makes of the bytes in front -/

theorem receive_eq {t : Stm32UartTransport} (ht : t.recvTransport = .self) (l : List UInt8) :
    t.receive l = (syncLoop l).bind t.receiveFrame := by
  rw [receive, if_neg (not_not.mpr ht)]
  rfl

/-- A byte that is not the first marker byte is passed over. -/
theorem receive_cons_ne {t : Stm32UartTransport} (ht : t.recvTransport = .self) {b : UInt8}
    (hb : b ≠ 0xAA) (l : List UInt8) : t.receive (b :: l) = t.receive l := by
  rw [receive_eq ht, receive_eq ht, syncLoop, if_neg hb]

theorem receive_cons_eq {t : Stm32UartTransport} (ht : t.recvTransport = .self)
    (l : List UInt8) : t.receive (0xAA :: l) = t.receiveFrame l := by
  rw [receive_eq ht, syncLoop, if_pos rfl]
  rfl

theorem toNat_ntohs (hi lo : UInt8) : (ntohs hi lo).toNat = hi.toNat * 256 + lo.toNat := by
  have hhi : hi.toNat < 2 ^ 8 := hi.toNat_lt
  have hlo : lo.toNat < 2 ^ 8 := lo.toNat_lt
  have height : (8 : UInt16).toNat % 16 = 8 := rfl
  have hlt : hi.toNat <<< 8 < 2 ^ 16 := by
    rw [Nat.shiftLeft_eq]
    omega
  rw [ntohs, UInt16.toNat_or, UInt16.toNat_shiftLeft, UInt8.toNat_toUInt16,
    UInt8.toNat_toUInt16, height, Nat.mod_eq_of_lt hlt, ← Nat.shiftLeft_add_eq_or_of_lt hlo,
    Nat.shiftLeft_eq]

/-- Behind a first marker byte that is none, eight bytes are gone. -/
theorem receiveFrame_of_ne (t : Stm32UartTransport) {x : UInt8} (hx : x ≠ 0x55)
    {rest : List UInt8} (hrest : (x :: rest).length = 7) (l : List UInt8) :
    ∃ r, t.receiveFrame (x :: rest ++ l) = some (r, l) ∧ r.code ≠ 0 := by
  have hread : readBlocked (DmqHeader.headerSize - 1) (x :: rest ++ l) = some (x :: rest, l) :=
    readBlocked_append hrest
  -- the first two bytes of the header are 0xAA and `x`, which is no marker
  have hmark (h : DmqHeader) (body : List UInt8)
      (hparse : DmqHeader.parse (0xAA :: x :: rest) = some (h, body)) :
      h.marker ≠ DmqHeader.markerValue := by
    have hparse' : h.marker = ntohs 0xAA x := by
      rcases rest with _ | ⟨i₀, _ | ⟨i₁, _ | ⟨s₀, _ | ⟨s₁, _ | ⟨l₀, _ | ⟨l₁, rest⟩⟩⟩⟩⟩⟩ <;>
        cases hparse
      rfl
    intro heq
    rw [hparse'] at heq
    have hnat := congrArg UInt16.toNat heq
    have hvalue : DmqHeader.markerValue.toNat = 0xAA55 := rfl
    have hbyte : (0xAA : UInt8).toNat = 0xAA := rfl
    rw [toNat_ntohs, hvalue, hbyte] at hnat
    apply hx
    apply UInt8.toNat_inj.mp
    have hfive : (0x55 : UInt8).toNat = 0x55 := rfl
    rw [hfive]
    omega
  unfold receiveFrame
  rw [hread]
  cases hparse : DmqHeader.parse (0xAA :: x :: rest) with
  | none => exact ⟨.failed none [], by simp [hparse], by decide⟩
  | some p =>
    obtain ⟨h, body⟩ := p
    refine ⟨.failed (some h) [], ?_, by simp [LineReceived.failed]⟩
    have hbody : t.receiveBody h (0xAA :: x :: rest) l = some (.failed (some h) [], l) := by
      rw [receiveBody, if_pos (hmark h body hparse)]
      rfl
    simp [hparse, hbody]

/-- A frame at the front is received and nothing behind it. -/
theorem receive_frame {t : Stm32UartTransport} (ht : t.recvTransport = .self) {h : DmqHeader}
    {payload : List UInt8} (hmark : h.marker = DmqHeader.markerValue)
    (hlen : payload.length = h.length.toNat) (hbuf : payload.length ≤ bufferSize)
    (more : List UInt8) :
    t.receive (frame h payload ++ more) = some (t.accepted h payload, more) := by
  have hbytes : h.bytes = 0xAA :: h.bytes.drop 1 := by
    rw [SerialTransport.bytes_of_marker hmark]
    rfl
  have hframe : frame h payload ++ more = 0xAA :: (h.bytes.drop 1 ++ (payload ++
      (crcBytes (crc16CalcBlock (h.bytes ++ payload) 0xFFFF) ++ more))) := by
    rw [frame, List.append_assoc, List.append_assoc]
    nth_rewrite 1 [hbytes]
    rfl
  have hparse : DmqHeader.parse (0xAA :: h.bytes.drop 1) = some (h, []) := by
    rw [← hbytes, ← List.append_nil h.bytes, DmqHeader.parse_bytes]
  have hrest : (h.bytes.drop 1).length = DmqHeader.headerSize - 1 := rfl
  rw [hframe, receive_cons_eq ht, receiveFrame, readBlocked_append hrest]
  have hbody : t.receiveBody h (0xAA :: h.bytes.drop 1) (payload ++
      (crcBytes (crc16CalcBlock (h.bytes ++ payload) 0xFFFF) ++ more)) =
        some (t.accepted h payload, more) := by
    have hcrc (crc : UInt16) : readBlocked 2 (crcBytes crc ++ more) = some (crcBytes crc, more) :=
      readBlocked_append rfl
    have hfits : ¬ bufferSize < h.length.toNat := by
      rw [← hlen]
      exact not_lt.mpr hbuf
    rw [receiveBody, if_neg (not_not.mpr hmark), if_neg hfits, readBlocked_append hlen, ← hbytes]
    simp only [Option.bind_eq_bind, Option.bind_some, hcrc, SerialTransport.crcOfBytes_crcBytes,
      crc16CalcBlock_append, ne_eq, not_true, if_false]
    rfl
  simp only [Option.bind_eq_bind, Option.bind_some, hparse, hbody]

end Stm32UartTransport

end AsyncSqlite
