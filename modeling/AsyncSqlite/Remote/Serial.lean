import AsyncSqlite.Data.ByteFeed
import AsyncSqlite.Remote.Crc16
import AsyncSqlite.Remote.Transport

/-!
# AsyncSqlite.Remote.Serial — frames with a checksum on a serial line

`SerialTransport`. A frame is the header, the payload and the checksum of both;
`Receive` hunts for the two marker bytes first. What `sp_blocking_read` returns
is a feed: a read that times out is a timeout of the feed.

`receiveFrom` is `Receive` over any way to read. Over the symbols of a feed,
where the pieces are gone, it is `hear`, and the hunt for the marker is an
automaton with two states, `hunt`.

`serial_round_trip_iff` is about frames without anything between them but
silence; what noise does is in `AsyncSqlite.Remote.Resync`.
-/

namespace AsyncSqlite

/-- What a `Receive` over a serial line does. -/
structure LineReceived where
  code : ℤ
  header : Option DmqHeader
  /-- what is appended to the stream, also by a call that fails -/
  payload : List UInt8
  /-- the argument of `m_transportMonitor->Remove` -/
  removed : Option UInt16
  /-- the header that goes to `m_sendTransport->Send`, without payload -/
  ack : Option DmqHeader
  deriving DecidableEq

def LineReceived.failed (header : Option DmqHeader) (payload : List UInt8) : LineReceived :=
  ⟨-1, header, payload, none, none⟩

structure SerialTransport where
  /-- `m_port` is set -/
  port : Bool
  sendTransport : TransportRef
  recvTransport : TransportRef
  /-- `m_transportMonitor` is set -/
  monitored : Bool

namespace SerialTransport

/-- `BUFFER_SIZE` -/
def bufferSize : ℕ := 4096

/-- The checksum as it lies in memory: low byte first. -/
def crcBytes (crc : UInt16) : List UInt8 := [crc.toUInt8, (crc >>> 8).toUInt8]

def crcOfBytes : List UInt8 → UInt16
  | [lo, hi] => ntohs hi lo
  | _ => 0

/-- `packetData`: the length is the payload's. -/
def packet (payload : List UInt8) (header : DmqHeader) : List UInt8 :=
  let packetWithoutCrc := { header with length := UInt16.ofNat payload.length }.bytes ++ payload
  packetWithoutCrc ++ crcBytes (crc16CalcBlock packetWithoutCrc 0xFFFF)

/-- The bytes on the line if `Send` returns 0; `written` says whether
`sp_blocking_write` takes them all. -/
def send (t : SerialTransport) (written : Bool) (payload : List UInt8) (header : DmqHeader) :
    Option (List UInt8) :=
  if t.port = false then none
  else if 65535 < payload.length then none
  else if written then some (packet payload header)
  else none

/-! ## `Receive` -/

section Receive

variable {σ : Type} (readExact : ℕ → σ → Option (List UInt8) × σ)

/-- A read of one byte. -/
def readByte (s : σ) : Option UInt8 × σ :=
  match readExact 1 s with
  | (some (b :: _), s) => (some b, s)
  | (_, s) => (none, s)

/-- The sync loop, with a bound on its rounds: `false` if it gives up. -/
def syncLoop : ℕ → σ → Bool × σ
  | 0, s => (false, s)
  | n + 1, s =>
    match readByte readExact s with
    | (none, s) => (false, s)
    | (some b, s) =>
      if b = 0xAA then
        match readByte readExact s with
        -- any other byte, or none in time, and the loop starts again
        | (next, s) => if next = some 0x55 then (true, s) else syncLoop n s
      else syncLoop n s

def accepted (t : SerialTransport) (header : DmqHeader) (payload : List UInt8) : LineReceived where
  code := 0
  header := some header
  payload := payload
  removed := if header.id = ackRemoteId ∧ t.monitored then some header.seqNum else none
  ack :=
    if header.id ≠ ackRemoteId ∧ t.sendTransport ≠ .null then
      some (.make ackRemoteId header.seqNum)
    else none

/-- `Receive` behind the marker. -/
def receiveFrame (t : SerialTransport) (s : σ) : LineReceived × σ :=
  match readExact (DmqHeader.headerSize - 2) s with
  | (none, s) => (.failed none [], s)
  | (some rest, s) =>
    let headerBuf := 0xAA :: 0x55 :: rest
    match DmqHeader.parse headerBuf with
    -- eight bytes always parse
    | none => (.failed none [], s)
    | some (header, _) =>
      if header.marker ≠ DmqHeader.markerValue then (.failed (some header) [], s)
      else if bufferSize < header.length.toNat then (.failed (some header) [], s)
      else match readExact header.length.toNat s with
      | (none, s) => (.failed (some header) [], s)
      | (some payload, s) =>
        -- the payload is in the stream before the checksum is looked at
        match readExact 2 s with
        | (none, s) => (.failed (some header) payload, s)
        | (some receivedCrc, s) =>
          if crcOfBytes receivedCrc ≠ crc16CalcBlock payload (crc16CalcBlock headerBuf 0xFFFF) then
            (.failed (some header) payload, s)
          else (t.accepted header payload, s)

/-- `Receive` over a way to read, with a bound on the rounds of the sync loop. -/
def receiveFrom (t : SerialTransport) (rounds : ℕ) (s : σ) : LineReceived × σ :=
  if t.port = false ∨ t.recvTransport ≠ .self then (.failed none [], s)
  else match syncLoop readExact rounds s with
  | (false, s) => (.failed none [], s)
  | (true, s) => t.receiveFrame readExact s

end Receive

/-- `Receive`: every round of the sync loop takes a byte or a timeout. -/
def receive (t : SerialTransport) (fd : Feed UInt8) : LineReceived × Feed UInt8 :=
  t.receiveFrom Feed.readExact (fd.symbols.length + 1) fd

/-! ## Symbol by symbol -/

/-- `Receive` on the symbols of a feed. -/
def hear (t : SerialTransport) (l : List (Option UInt8)) : LineReceived × List (Option UInt8) :=
  t.receiveFrom Feed.takeExact (l.length + 1) l

section Simulation

variable {σ τ : Type} {readExact : ℕ → σ → Option (List UInt8) × σ}
  {readExact' : ℕ → τ → Option (List UInt8) × τ} {f : σ → τ}

/-- `f` carries one way to read to the other. -/
def Simulates (readExact : ℕ → σ → Option (List UInt8) × σ)
    (readExact' : ℕ → τ → Option (List UInt8) × τ) (f : σ → τ) : Prop :=
  ∀ n s, readExact' n (f s) = Prod.map id f (readExact n s)

theorem readByte_map (hread : Simulates readExact readExact' f) (s : σ) :
    readByte readExact' (f s) = Prod.map id f (readByte readExact s) := by
  unfold readByte
  rw [hread]
  rcases readExact 1 s with ⟨_ | (_ | _), _⟩ <;> rfl

theorem syncLoop_map (hread : Simulates readExact readExact' f) (n : ℕ) (s : σ) :
    syncLoop readExact' n (f s) = Prod.map id f (syncLoop readExact n s) := by
  induction n generalizing s with
  | zero => rfl
  | succ n ih =>
    unfold syncLoop
    rw [readByte_map hread]
    rcases readByte readExact s with ⟨_ | b, s₁⟩
    · rfl
    · dsimp only [Prod.map_apply, id]
      by_cases hb : b = 0xAA
      · rw [if_pos hb, if_pos hb, readByte_map hread]
        rcases readByte readExact s₁ with ⟨next, s₂⟩
        dsimp only [Prod.map_apply, id]
        by_cases hnext : next = some 0x55
        · rw [if_pos hnext, if_pos hnext]
          rfl
        · rw [if_neg hnext, if_neg hnext, ih]
      · rw [if_neg hb, if_neg hb, ih]

theorem receiveFrame_map (hread : Simulates readExact readExact' f) (t : SerialTransport) (s : σ) :
    t.receiveFrame readExact' (f s) = Prod.map id f (t.receiveFrame readExact s) := by
  unfold receiveFrame
  -- every read commutes with `f`, and the branches depend on what was read alone
  rw [hread]
  rcases readExact (DmqHeader.headerSize - 2) s with ⟨_ | rest, s₁⟩
  · rfl
  · dsimp only [Prod.map_apply, id]
    cases DmqHeader.parse (0xAA :: 0x55 :: rest) with
    | none => rfl
    | some p =>
      obtain ⟨header, body⟩ := p
      dsimp only
      by_cases hmark : header.marker ≠ DmqHeader.markerValue
      · rw [if_pos hmark, if_pos hmark]
        rfl
      · rw [if_neg hmark, if_neg hmark]
        by_cases hlen : bufferSize < header.length.toNat
        · rw [if_pos hlen, if_pos hlen]
          rfl
        · rw [if_neg hlen, if_neg hlen, hread]
          rcases readExact header.length.toNat s₁ with ⟨_ | payload, s₂⟩
          · rfl
          · dsimp only [Prod.map_apply, id]
            rw [hread]
            rcases readExact 2 s₂ with ⟨_ | receivedCrc, s₃⟩
            · rfl
            · dsimp only [Prod.map_apply, id]
              split_ifs <;> rfl

theorem receiveFrom_map (hread : Simulates readExact readExact' f) (t : SerialTransport) (n : ℕ)
    (s : σ) : t.receiveFrom readExact' n (f s) = Prod.map id f (t.receiveFrom readExact n s) := by
  unfold receiveFrom
  by_cases hopen : t.port = false ∨ t.recvTransport ≠ .self
  · rw [if_pos hopen, if_pos hopen]
    rfl
  · rw [if_neg hopen, if_neg hopen, syncLoop_map hread]
    rcases syncLoop readExact n s with ⟨_ | _, s₁⟩
    · rfl
    · exact receiveFrame_map hread t s₁

end Simulation

/-- `Receive` does not see how the bytes are cut into reads. -/
theorem receive_symbols (t : SerialTransport) (fd : Feed UInt8) :
    t.hear fd.symbols = Prod.map id Feed.symbols (t.receive fd) := by
  refine receiveFrom_map (fun n fd => ?_) t _ fd
  obtain ⟨hread, hsym⟩ := fd.readExact_symbols n
  exact (Prod.ext hread hsym).symm

/-! ## The hunt for the marker -/

/-- The sync loop as an automaton: has the first marker byte just been read? -/
def hunt : Bool → List (Option UInt8) → Bool × List (Option UInt8)
  | _, [] => (false, [])
  | false, none :: l => (false, l)
  | false, some b :: l => hunt (b == 0xAA) l
  | true, none :: l => hunt false l
  | true, some b :: l => if b = 0x55 then (true, l) else hunt false l

theorem syncLoop_takeExact {n : ℕ} {l : List (Option UInt8)} (h : l.length < n) :
    syncLoop Feed.takeExact n l = hunt false l := by
  induction n generalizing l with
  | zero => omega
  | succ n ih =>
    cases l with
    | nil => rfl
    | cons x l =>
      rw [List.length_cons] at h
      cases x with
      | none => rfl
      | some b =>
        have hbyte : readByte Feed.takeExact (some b :: l) = (some b, l) := rfl
        rw [syncLoop, hbyte]
        dsimp only
        by_cases hb : b = 0xAA
        · rw [if_pos hb, hunt, beq_iff_eq.mpr hb]
          -- the byte behind the first marker byte is read in the same round
          cases l with
          | nil =>
            have hnext : readByte Feed.takeExact ([] : List (Option UInt8)) = (none, []) := rfl
            rw [hnext]
            exact ih (by rw [List.length_nil] at h ⊢; omega)
          | cons y l =>
            rw [List.length_cons] at h
            cases y with
            | none =>
              have hnext : readByte Feed.takeExact (none :: l) = (none, l) := rfl
              rw [hnext]
              exact ih (show l.length < n by omega)
            | some c =>
              have hnext : readByte Feed.takeExact (some c :: l) = (some c, l) := rfl
              rw [hnext, hunt]
              dsimp only
              by_cases hc : c = 0x55
              · rw [if_pos hc, if_pos (congrArg some hc)]
              · rw [if_neg hc, if_neg fun h => hc (Option.some.inj h)]
                exact ih (by omega)
        · rw [if_neg hb, hunt, beq_eq_false_iff_ne.mpr hb]
          exact ih (by omega)

/-- A call that is in the middle of the hunt. -/
def hearFrom (t : SerialTransport) (seen : Bool) (l : List (Option UInt8)) :
    LineReceived × List (Option UInt8) :=
  match hunt seen l with
  | (false, l) => (.failed none [], l)
  | (true, l) => t.receiveFrame Feed.takeExact l

/-- The port is open and the transport receives for itself. -/
structure Receiving (t : SerialTransport) : Prop where
  port : t.port = true
  self : t.recvTransport = .self

theorem hear_eq {t : SerialTransport} (ht : t.Receiving) (l : List (Option UInt8)) :
    t.hear l = t.hearFrom false l := by
  have hopen : ¬ (t.port = false ∨ t.recvTransport ≠ .self) := by
    simp [ht.port, ht.self]
  rw [hear, receiveFrom, if_neg hopen, syncLoop_takeExact (Nat.lt_succ_self _), hearFrom]
  rcases hunt false l with ⟨_ | _, l'⟩ <;> rfl

/-! ## Frames on a quiet line -/

/-- The bytes of a frame. -/
def frame (h : DmqHeader) (payload : List UInt8) : List UInt8 :=
  h.bytes ++ payload ++ crcBytes (crc16CalcBlock (h.bytes ++ payload) 0xFFFF)

theorem packet_eq_frame (payload : List UInt8) (header : DmqHeader) :
    packet payload header = frame { header with length := UInt16.ofNat payload.length } payload :=
  rfl

/-- What `Receive` takes: the marker, the payload that is announced, and not
more than the buffer. -/
structure Fits (h : DmqHeader) (payload : List UInt8) : Prop where
  marker : h.marker = DmqHeader.markerValue
  length : payload.length = h.length.toNat
  buffer : payload.length ≤ bufferSize

@[simp] theorem crcOfBytes_crcBytes (crc : UInt16) : crcOfBytes (crcBytes crc) = crc :=
  ntohs_htons crc

/-- The bytes of a header with the marker. -/
theorem bytes_of_marker {h : DmqHeader} (hmark : h.marker = DmqHeader.markerValue) :
    h.bytes = 0xAA :: 0x55 :: h.bytes.drop 2 := by
  have hbytes : htons DmqHeader.markerValue = [0xAA, 0x55] := by decide
  rw [DmqHeader.bytes, hmark, hbytes]
  rfl

theorem receiveFrame_frame (t : SerialTransport) {h : DmqHeader} {payload : List UInt8}
    (hfits : Fits h payload) (more : List (Option UInt8)) :
    t.receiveFrame Feed.takeExact ((h.bytes.drop 2 ++ (payload ++
        crcBytes (crc16CalcBlock (h.bytes ++ payload) 0xFFFF))).map some ++ more) =
      (t.accepted h payload, more) := by
  have hrest : (h.bytes.drop 2).length = DmqHeader.headerSize - 2 := rfl
  have hparse : DmqHeader.parse (0xAA :: 0x55 :: h.bytes.drop 2) = some (h, []) := by
    rw [← bytes_of_marker hfits.marker, ← List.append_nil h.bytes, DmqHeader.parse_bytes]
  have hbuf : ¬ bufferSize < h.length.toNat := by
    rw [← hfits.length]
    exact not_lt.mpr hfits.buffer
  have hcrc (crc : UInt16) : Feed.takeExact 2 ((crcBytes crc).map some ++ more) =
      (some (crcBytes crc), more) := Feed.takeExact_of_le (Nat.le_refl 2)
  unfold receiveFrame
  rw [Feed.takeExact_append hrest]
  dsimp only
  rw [hparse]
  dsimp only
  rw [if_neg (not_not.mpr hfits.marker), if_neg hbuf, Feed.takeExact_append hfits.length]
  dsimp only
  -- one pass over header and payload, or two that hand the checksum on
  rw [hcrc, ← bytes_of_marker hfits.marker, ← crc16CalcBlock_append]
  dsimp only
  rw [crcOfBytes_crcBytes, if_neg (not_not.mpr rfl)]

/-- A frame at the front of the line is received and nothing behind it. -/
theorem hearFrom_frame (t : SerialTransport) {h : DmqHeader} {payload : List UInt8}
    (hfits : Fits h payload) (more : List (Option UInt8)) :
    t.hearFrom false ((frame h payload).map some ++ more) = (t.accepted h payload, more) := by
  have hframe : frame h payload = 0xAA :: 0x55 :: (h.bytes.drop 2 ++ (payload ++
      crcBytes (crc16CalcBlock (h.bytes ++ payload) 0xFFFF))) := by
    rw [frame, List.append_assoc]
    nth_rewrite 1 [bytes_of_marker hfits.marker]
    rfl
  rw [hframe]
  exact receiveFrame_frame t hfits more

/-! ## What a call takes from the line -/

/-- No call gives bytes back, and one that succeeds has read so many bytes and
what it appends, which is within the buffer. -/
structure Takes (bytes : ℕ) (l : List (Option UInt8)) (r : LineReceived)
    (l' : List (Option UInt8)) : Prop where
  le : l'.reduceOption.length ≤ l.reduceOption.length
  success : r.code = 0 → r.payload.length ≤ bufferSize ∧
    l'.reduceOption.length + bytes + r.payload.length ≤ l.reduceOption.length

theorem receiveFrame_takes (t : SerialTransport) (l : List (Option UInt8)) :
    Takes 8 l (t.receiveFrame Feed.takeExact l).1 (t.receiveFrame Feed.takeExact l).2 := by
  have hfailed {header payload} {l' : List (Option UInt8)}
      (hle : l'.reduceOption.length ≤ l.reduceOption.length) :
      Takes 8 l (.failed header payload) l' := ⟨hle, fun h => by cases h⟩
  unfold receiveFrame
  -- the rest of the header, the payload and the checksum, one read after the other
  obtain ⟨hle₁, hread₁⟩ := Feed.takeExact_count (DmqHeader.headerSize - 2) l
  generalize Feed.takeExact (DmqHeader.headerSize - 2) l = read₁ at hle₁ hread₁ ⊢
  rcases read₁ with ⟨_ | rest, l₁⟩
  · exact hfailed hle₁
  obtain ⟨-, hcount₁⟩ := hread₁ rest rfl
  rw [DmqHeader.headerSize] at hcount₁
  dsimp only at hle₁ hcount₁ ⊢
  cases DmqHeader.parse (0xAA :: 0x55 :: rest) with
  | none => exact hfailed hle₁
  | some p =>
    obtain ⟨h, body⟩ := p
    dsimp only
    by_cases hmark : h.marker ≠ DmqHeader.markerValue
    · rw [if_pos hmark]
      exact hfailed hle₁
    rw [if_neg hmark]
    by_cases hbuf : bufferSize < h.length.toNat
    · rw [if_pos hbuf]
      exact hfailed hle₁
    rw [if_neg hbuf]
    obtain ⟨hle₂, hread₂⟩ := Feed.takeExact_count h.length.toNat l₁
    generalize Feed.takeExact h.length.toNat l₁ = read₂ at hle₂ hread₂ ⊢
    rcases read₂ with ⟨_ | payload, l₂⟩
    · exact hfailed (hle₂.trans hle₁)
    obtain ⟨hlen, hcount₂⟩ := hread₂ payload rfl
    dsimp only at hle₂ hcount₂ ⊢
    obtain ⟨hle₃, hread₃⟩ := Feed.takeExact_count 2 l₂
    generalize Feed.takeExact 2 l₂ = read₃ at hle₃ hread₃ ⊢
    rcases read₃ with ⟨_ | receivedCrc, l₃⟩
    · exact hfailed (hle₃.trans (hle₂.trans hle₁))
    obtain ⟨-, hcount₃⟩ := hread₃ receivedCrc rfl
    dsimp only at hle₃ hcount₃ ⊢
    by_cases hcrc : crcOfBytes receivedCrc ≠
        crc16CalcBlock payload (crc16CalcBlock (0xAA :: 0x55 :: rest) 0xFFFF)
    · rw [if_pos hcrc]
      exact hfailed (hle₃.trans (hle₂.trans hle₁))
    · rw [if_neg hcrc]
      refine ⟨hle₃.trans (hle₂.trans hle₁), fun _ => ⟨?_, ?_⟩⟩
      · rw [accepted, hlen]
        exact not_lt.mp hbuf
      · rw [accepted]
        dsimp only
        omega

theorem hunt_count (seen : Bool) (l : List (Option UInt8)) :
    (hunt seen l).2.reduceOption.length ≤ l.reduceOption.length ∧
      ((hunt seen l).1 = true →
        (hunt seen l).2.reduceOption.length + (if seen then 1 else 2) ≤ l.reduceOption.length) := by
  induction l generalizing seen with
  | nil => simp [hunt]
  | cons x l ih =>
    cases x with
    -- a timeout ends the hunt, or starts it again behind a first marker byte
    | none =>
      rw [List.reduceOption_cons_of_none]
      cases seen with
      | false => exact ⟨le_rfl, fun h => by cases h⟩
      | true =>
        obtain ⟨hle, hfound⟩ := ih false
        refine ⟨hle, fun h => ?_⟩
        have htwo := hfound h
        simp only [Bool.false_eq_true, if_false] at htwo
        rw [if_pos rfl]
        exact (Nat.add_le_add_left (by decide) _).trans htwo
    | some b =>
      rw [List.reduceOption_cons_of_some, List.length_cons]
      cases seen with
      | false =>
        obtain ⟨hle, hfound⟩ := ih (b == 0xAA)
        refine ⟨hle.trans (Nat.le_succ _), fun h => ?_⟩
        have hone := hfound h
        simp only [Bool.false_eq_true, if_false]
        change (hunt (b == 0xAA) l).2.reduceOption.length + 2 ≤ _
        split_ifs at hone <;> omega
      | true =>
        rw [hunt]
        by_cases hb : b = 0x55
        · rw [if_pos hb]
          exact ⟨Nat.le_succ _, fun _ => le_rfl⟩
        · -- the byte behind an 0xAA is no 0x55: both are passed over
          rw [if_neg hb]
          obtain ⟨hle, hfound⟩ := ih false
          refine ⟨hle.trans (Nat.le_succ _), fun h => ?_⟩
          have htwo := hfound h
          simp only [Bool.false_eq_true, if_false] at htwo
          rw [if_pos rfl]
          omega

theorem hearFrom_takes (t : SerialTransport) (l : List (Option UInt8)) :
    Takes 10 l (t.hearFrom false l).1 (t.hearFrom false l).2 := by
  unfold hearFrom
  obtain ⟨hle, hfound⟩ := hunt_count false l
  generalize hunt false l = found at hle hfound ⊢
  rcases found with ⟨_ | _, l₁⟩
  · exact ⟨hle, fun h => by cases h⟩
  · have htwo := hfound rfl
    obtain ⟨hle', hsuccess⟩ := receiveFrame_takes t l₁
    simp only [Bool.false_eq_true, if_false] at htwo
    refine ⟨hle'.trans hle, fun h => ?_⟩
    obtain ⟨hbuf, hcount⟩ := hsuccess h
    refine ⟨hbuf, ?_⟩
    dsimp only
    omega

/-! ## Round trip -/

section Calls

variable {σ τ : Type}

/-- `n` calls in a row. -/
def calls (step : σ → LineReceived × σ) : ℕ → σ → List LineReceived × σ
  | 0, s => ([], s)
  | n + 1, s =>
    match step s with
    | (r, s) =>
      match calls step n s with
      | (rs, s) => (r :: rs, s)

theorem calls_map {step : σ → LineReceived × σ} {step' : τ → LineReceived × τ} {f : σ → τ}
    (hstep : ∀ s, step' (f s) = Prod.map id f (step s)) (n : ℕ) (s : σ) :
    calls step' n (f s) = Prod.map id f (calls step n s) := by
  induction n generalizing s with
  | zero => rfl
  | succ n ih =>
    unfold calls
    rw [hstep]
    rcases step s with ⟨r, s₁⟩
    dsimp only [Prod.map_apply, id]
    rw [ih]
    rfl

end Calls

/-- A successful `Send`: the bytes on the line, and how many reads time out in
the silence before them. -/
structure LineSend where
  header : DmqHeader
  payload : List UInt8
  gap : ℕ
  bytes : List UInt8
  deriving DecidableEq

/-- `Send` returned 0 for a header with the standard marker. -/
structure Sends (t : SerialTransport) (s : LineSend) : Prop where
  marker : s.header.marker = DmqHeader.markerValue
  sent : t.send true s.payload s.header = some s.bytes

/-- What arrives of the sends on a lossless line. -/
def line (sends : List LineSend) : List (Option UInt8) :=
  sends.flatMap fun s => List.replicate s.gap none ++ s.bytes.map some

/-- A successful call gives back what was sent. -/
structure Delivers (s : LineSend) (r : LineReceived) : Prop where
  header : r.header = some { s.header with length := UInt16.ofNat s.payload.length }
  length : (UInt16.ofNat s.payload.length).toNat = s.payload.length
  payload : r.payload = s.payload

theorem Sends.bytes_eq {t : SerialTransport} {s : LineSend} (h : t.Sends s) :
    s.bytes = frame { s.header with length := UInt16.ofNat s.payload.length } s.payload ∧
      s.payload.length ≤ 65535 := by
  have hsent := h.sent
  unfold send at hsent
  split_ifs at hsent with hport hlen
  exact ⟨(Option.some.inj hsent).symm, not_lt.mp hlen⟩

theorem Sends.fits {t : SerialTransport} {s : LineSend} (h : t.Sends s)
    (hbuf : s.payload.length ≤ bufferSize) :
    Fits { s.header with length := UInt16.ofNat s.payload.length } s.payload := by
  refine ⟨h.marker, ?_, hbuf⟩
  have hlen := h.bytes_eq.2
  dsimp only
  rw [UInt16.toNat_ofNat', Nat.mod_eq_of_lt (by omega)]

/-- In silence a call fails at once. -/
theorem hear_none {t : SerialTransport} (ht : t.Receiving) (l : List (Option UInt8)) :
    t.hear (none :: l) = (.failed none [], l) := by
  rw [hear_eq ht]
  rfl

/-- One send: silence, then the frame. -/
theorem calls_hear_sent {t u : SerialTransport} (hu : u.Receiving) {s : LineSend} (hs : t.Sends s)
    (hbuf : s.payload.length ≤ bufferSize) (more : List (Option UInt8)) (n : ℕ) :
    ∃ r failed, Delivers s r ∧ r.code = 0 ∧ (∀ q ∈ failed, LineReceived.code q ≠ 0) ∧
      calls u.hear (s.gap + 1 + n) (List.replicate s.gap none ++ (s.bytes.map some ++ more)) =
        (failed ++ r :: (calls u.hear n more).1, (calls u.hear n more).2) := by
  have hfits := hs.fits hbuf
  rw [hs.bytes_eq.1]
  generalize s.gap = gap
  induction gap with
  | zero =>
    refine ⟨u.accepted _ s.payload, [], ⟨rfl, hfits.length.symm, rfl⟩, rfl, by simp, ?_⟩
    rw [List.replicate_zero, List.nil_append, Nat.zero_add, Nat.add_comm, calls, hear_eq hu,
      hearFrom_frame u hfits]
    rfl
  | succ gap ih =>
    obtain ⟨r, failed, hr, hcode, hfailed, hcalls⟩ := ih
    refine ⟨r, .failed none [] :: failed, hr, hcode, ?_, ?_⟩
    · intro q hq
      rcases List.mem_cons.mp hq with rfl | hq
      · decide
      · exact hfailed q hq
    · have hcount : gap + 1 + 1 + n = (gap + 1 + n) + 1 := by omega
      rw [hcount, calls, List.replicate_succ, List.cons_append, hear_none hu]
      dsimp only
      rw [hcalls]
      rfl

theorem payload_le_of_mem_calls {u : SerialTransport} (hu : u.Receiving) {n : ℕ}
    {l : List (Option UInt8)} {r : LineReceived} (hr : r ∈ (calls u.hear n l).1)
    (hcode : r.code = 0) : r.payload.length ≤ bufferSize := by
  induction n generalizing l with
  | zero => exact absurd hr (List.not_mem_nil)
  | succ n ih =>
    have hcons : r ∈ (u.hear l).1 :: (calls u.hear n (u.hear l).2).1 := hr
    rcases List.mem_cons.mp hcons with heq | hr
    · rw [heq, hear_eq hu] at hcode ⊢
      exact ((u.hearFrom_takes l).success hcode).1
    · exact ih hr

theorem calls_receive (u : SerialTransport) (n : ℕ) (fd : Feed UInt8) :
    (calls u.receive n fd).1 = (calls u.hear n fd.symbols).1 ∧
      (calls u.receive n fd).2.symbols = (calls u.hear n fd.symbols).2 := by
  rw [calls_map u.receive_symbols]
  exact ⟨rfl, rfl⟩

/-- What is given back fits the buffer. -/
theorem payload_le_of_delivered {u : SerialTransport} (hu : u.Receiving) {sends : List LineSend}
    {n : ℕ} {fd : Feed UInt8}
    (hall : List.Forall₂ Delivers sends ((calls u.receive n fd).1.filter (·.code = 0))) :
    ∀ s ∈ sends, s.payload.length ≤ bufferSize := by
  intro s hs
  rw [(calls_receive u n fd).1] at hall
  obtain ⟨i, hi, rfl⟩ := List.getElem_of_mem hs
  have hi' := hall.length_eq ▸ hi
  have hdelivers := hall.get hi hi'
  obtain ⟨hmem, hcode⟩ := List.mem_filter.mp (List.get_mem _ ⟨i, hi'⟩)
  have hle := payload_le_of_mem_calls hu hmem (by simpa using hcode)
  rw [hdelivers.payload] at hle
  exact hle

/-- On a lossless line, whatever the pieces it is read in and the silence between
the frames, repeated `Receive` calls give back what was sent, in order and
without a rest, if and only if every payload fits the receiver's buffer. -/
theorem serial_round_trip_iff {t u : SerialTransport} (hu : u.Receiving) {sends : List LineSend}
    (hsends : ∀ s ∈ sends, t.Sends s) {fd : Feed UInt8} {more : List (Option UInt8)}
    (hfd : fd.symbols = line sends ++ more) :
    (∃ n, List.Forall₂ Delivers sends ((calls u.receive n fd).1.filter (·.code = 0)) ∧
        (calls u.receive n fd).2.symbols = more) ↔
      ∀ s ∈ sends, s.payload.length ≤ bufferSize := by
  constructor
  · rintro ⟨n, hall, -⟩
    exact payload_le_of_delivered hu hall
  · intro hbuf
    simp only [calls_receive, hfd]
    clear hfd
    induction sends with
    | nil => exact ⟨0, .nil, rfl⟩
    | cons s sends ih =>
      obtain ⟨n, hall, hrest⟩ := ih (fun s hs => hsends s (List.mem_cons_of_mem _ hs))
        (fun s hs => hbuf s (List.mem_cons_of_mem _ hs))
      -- the silence before the frame gives failures, the frame itself one success
      obtain ⟨r, failed, hr, hcode, hfailed, hone⟩ := calls_hear_sent hu
        (hsends s (List.mem_cons_self ..)) (hbuf s (List.mem_cons_self ..)) (line sends ++ more) n
      refine ⟨s.gap + 1 + n, ?_⟩
      have hline : line (s :: sends) ++ more =
          List.replicate s.gap none ++ (s.bytes.map some ++ (line sends ++ more)) := by
        rw [line, List.flatMap_cons, List.append_assoc, List.append_assoc]
        rfl
      rw [hline, hone]
      refine ⟨?_, hrest⟩
      have hnone : failed.filter (·.code = 0) = [] :=
        List.filter_eq_nil_iff.mpr fun q hq => by simpa using hfailed q hq
      rw [List.filter_append, hnone, List.nil_append,
        List.filter_cons_of_pos (by simpa using hcode)]
      exact .cons hr hall

/-- Two ends of a line. -/
def serialEnd : SerialTransport := ⟨true, .self, .self, false⟩

def sampleSend (seqNum : UInt16) (payload : List UInt8) (gap : ℕ) : LineSend :=
  ⟨.make 1 seqNum, payload, gap, packet payload (.make 1 seqNum)⟩

/-- A frame without payload, silence, and one with a payload like a marker. -/
def sampleSends : List LineSend := [sampleSend 5 [] 0, sampleSend 6 [0xAA, 0x55] 1]

def sampleFeed : Feed UInt8 :=
  [.data (packet [] (.make 1 5)), .timeout, .data ((packet [0xAA, 0x55] (.make 1 6)).take 3),
    .data ((packet [0xAA, 0x55] (.make 1 6)).drop 3)]

theorem serial_round_trip_iff_sample : ∃ n,
    List.Forall₂ Delivers sampleSends
        ((calls serialEnd.receive n sampleFeed).1.filter (·.code = 0)) ∧
      (calls serialEnd.receive n sampleFeed).2.symbols = [] := by
  have hsends : ∀ s ∈ sampleSends, serialEnd.Sends s := by
    intro s hs
    simp only [sampleSends, List.mem_cons, List.not_mem_nil, or_false] at hs
    rcases hs with rfl | rfl <;> exact ⟨rfl, rfl⟩
  exact (serial_round_trip_iff ⟨rfl, rfl⟩ hsends (by decide +kernel)).mpr (by decide)

/-- `Send` takes a payload of 4097 bytes, and no sequence of calls gives it
back. -/
theorem not_serial_round_trip :
    serialEnd.Sends (sampleSend 5 (List.replicate 4097 0) 0) ∧
      ¬ ∃ n, List.Forall₂ Delivers [sampleSend 5 (List.replicate 4097 0) 0]
        ((calls serialEnd.receive n
          [.data (packet (List.replicate 4097 0) (.make 1 5))]).1.filter (·.code = 0)) := by
  constructor
  · refine ⟨rfl, ?_⟩
    have hlen : ¬ 65535 < (List.replicate 4097 (0 : UInt8)).length := by
      rw [List.length_replicate]
      decide
    unfold send sampleSend
    rw [if_neg (by decide), if_neg hlen, if_pos rfl]
  · rintro ⟨n, hall⟩
    have hle := payload_le_of_delivered ⟨rfl, rfl⟩ hall _ (List.mem_singleton_self _)
    rw [sampleSend, List.length_replicate] at hle
    exact absurd hle (by decide)

end SerialTransport

end AsyncSqlite
