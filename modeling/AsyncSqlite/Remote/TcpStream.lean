import AsyncSqlite.Lts.Core
import AsyncSqlite.Remote.Tcp

/-!
# AsyncSqlite.Remote.TcpStream — frame after frame on one connection

What repeated `Receive` calls make of the byte stream of a connection.

* Without timeouts the frames that were sent come out one by one, however the
  stream is cut into `read` results (`receiveCalls_sent`).
* An error keeps the reader at the start of a frame only under a condition on
  what the call finds, `KeepsUp`: `atFrame_receiveSocket_iff` for one connection
  and `atFrame_of_reachable` for a transport over a whole run. A frame with a
  payload that is refused, for its marker or its length, leaves the payload in
  the stream, and a client that runs into a timeout loses what it has read.
-/

namespace AsyncSqlite

namespace TcpTransport

open UdpTransport (Received)

variable {t : TcpTransport}

/-- A frame that is all there is received. -/
theorem receiveSocket_of_frame {fd : Feed UInt8} {h : DmqHeader} {body : List UInt8}
    (hparse : DmqHeader.parse fd.unbroken = some (h, body))
    (hmark : h.marker = DmqHeader.markerValue) (hlen : h.length.toNat ≤ bufferSize)
    (hbody : h.length.toNat ≤ body.length) :
    ∃ fd', t.receiveSocket true fd = (t.accepted h (body.take h.length.toNat), fd') ∧
      fd'.symbols = (body.drop h.length.toNat).map some ++ fd.interrupted := by
  have hspec := t.receiveSocket_spec true fd
  rcases hcall : t.receiveSocket true fd with ⟨r, fd'⟩
  rw [hcall] at hspec
  cases hspec with
  | idle hidle => cases hidle
  | noHeader hnone hfd => rw [hparse] at hnone; cases hnone
  | misframed hparse' hmark' hfd =>
    rw [hparse] at hparse'
    cases hparse'
    exact absurd hmark hmark'
  | oversize hparse' hlen' hfd =>
    rw [hparse] at hparse'
    cases hparse'
    omega
  | cut hparse' hmark' hlen' hcut hfd =>
    rw [hparse] at hparse'
    cases hparse'
    omega
  | delivered hparse' hmark' hlen' hbody' hfd =>
    rw [hparse] at hparse'
    cases hparse'
    exact ⟨fd', rfl, hfd⟩

/-! ## Round trip -/

/-- `ReceiveSocket` called again and again; the list says what `select` answers. -/
def receiveCalls (t : TcpTransport) : List Bool → Feed UInt8 → List Received × Feed UInt8
  | [], fd => ([], fd)
  | ready :: calls, fd =>
    let (r, fd') := t.receiveSocket ready fd
    let (rs, fd'') := receiveCalls t calls fd'
    (r :: rs, fd'')

/-- A successful call gives back what was sent. -/
structure Delivers (sent : DmqHeader × List UInt8) (r : Received) : Prop where
  code : r.code = 0
  header : r.header = some { sent.1 with length := UInt16.ofNat sent.2.length }
  length : (UInt16.ofNat sent.2.length).toNat = sent.2.length
  payload : r.payload = sent.2

/-- `SendToSocket` took a frame with the standard marker, within the buffer. -/
structure SentFrame (sent : DmqHeader × List UInt8) (frame : List UInt8) : Prop where
  marker : sent.1.marker = DmqHeader.markerValue
  length : sent.2.length ≤ bufferSize - DmqHeader.headerSize
  sent : sendToSocket (some true) sent.2 sent.1 = ⟨0, some frame⟩

theorem SentFrame.frame_eq {sent : DmqHeader × List UInt8} {frame : List UInt8}
    (h : SentFrame sent frame) :
    frame = { sent.1 with length := UInt16.ofNat sent.2.length }.bytes ++ sent.2 ∧
      (UInt16.ofNat sent.2.length).toNat = sent.2.length := by
  have hbuf : sent.2.length ≤ 4088 := h.length
  have hlen : (UInt16.ofNat sent.2.length).toNat = sent.2.length := by
    rw [UInt16.toNat_ofNat']
    omega
  have hframe := h.sent
  rw [sendToSocket_of_sent (by rw [Nat.mod_eq_of_lt (by omega)]; exact h.length)] at hframe
  have heq : wireFrame sent.2 sent.1 = frame := by simpa using hframe
  refine ⟨?_, hlen⟩
  rw [← heq, wireFrame, hlen, List.take_length]

/-- One frame of a stream without timeouts. -/
theorem receiveSocket_sent {sent : DmqHeader × List UInt8} {frame more : List UInt8}
    (hs : SentFrame sent frame) {fd : Feed UInt8} (hfd : fd.symbols = (frame ++ more).map some) :
    ∃ r fd', t.receiveSocket true fd = (r, fd') ∧ Delivers sent r ∧
      fd'.symbols = more.map some := by
  obtain ⟨hframe, hlen⟩ := hs.frame_eq
  have hbuf : sent.2.length ≤ 4088 := hs.length
  obtain ⟨hunbroken, hinterrupted⟩ := fd.unbroken_of_symbols hfd
  have hparse : DmqHeader.parse fd.unbroken =
      some ({ sent.1 with length := UInt16.ofNat sent.2.length }, sent.2 ++ more) := by
    rw [hunbroken, hframe, List.append_assoc, DmqHeader.parse_bytes]
  obtain ⟨fd', hcall, hfd'⟩ := receiveSocket_of_frame (t := t) hparse hs.marker
    (by rw [hlen]; exact hbuf.trans (by decide)) (by rw [hlen]; simp)
  refine ⟨_, fd', hcall, ⟨rfl, rfl, hlen, ?_⟩, ?_⟩
  · rw [accepted, hlen, List.take_left]
  · rw [hfd', hlen, List.drop_left, hinterrupted, List.append_nil]

/-- However the stream of the frames that were sent is cut into `read` results,
the calls return 0 exactly once for each frame, in order and with what was sent,
the others return -1, and no byte is left. -/
theorem receiveCalls_sent (t : TcpTransport) {sends : List (DmqHeader × List UInt8)}
    {frames : List (List UInt8)} (hsends : List.Forall₂ SentFrame sends frames)
    {fd : Feed UInt8} (hfd : fd.arriving = frames.flatten) (hdata : .timeout ∉ fd)
    {calls : List Bool} (hcalls : calls.count true = sends.length) :
    List.Forall₂ Delivers sends ((t.receiveCalls calls fd).1.filter (·.code = 0)) ∧
      (∀ r ∈ (t.receiveCalls calls fd).1, r.code = 0 ∨ r.code = -1) ∧
      (t.receiveCalls calls fd).2.arriving = [] := by
  have hsym : fd.symbols = frames.flatten.map some := hfd ▸ Feed.symbols_of_data hdata
  clear hfd hdata
  induction calls generalizing sends frames fd with
  | nil =>
    rw [List.count_nil] at hcalls
    rw [List.eq_nil_of_length_eq_zero hcalls.symm] at hsends ⊢
    cases hsends
    refine ⟨.nil, fun r hr => absurd hr (List.not_mem_nil), ?_⟩
    rw [receiveCalls, Feed.arriving, hsym]
    rfl
  | cons ready calls ih =>
    cases ready with
    | false =>
      -- nothing was ready: the call fails and reads nothing
      rw [List.count_cons_of_ne (by decide)] at hcalls
      obtain ⟨hall, hcodes, hrest⟩ := ih hsends hcalls hsym
      refine ⟨hall, ?_, hrest⟩
      intro r hr
      rcases List.mem_cons.mp hr with rfl | hr
      · exact .inr rfl
      · exact hcodes r hr
    | true =>
      rw [List.count_cons_self] at hcalls
      cases hsends with
      | nil => cases hcalls
      | @cons sent frame sends frames hs hsends =>
        obtain ⟨r, fd', hcall, hr, hfd'⟩ := receiveSocket_sent (t := t) hs
          (by rw [hsym, List.flatten_cons])
        obtain ⟨hall, hcodes, hrest⟩ := ih hsends (Nat.succ.inj hcalls) hfd'
        simp only [receiveCalls, hcall]
        refine ⟨?_, ?_, hrest⟩
        · rw [List.filter_cons_of_pos (by simp [hr.code])]
          exact .cons hr hall
        · intro r' hr'
          rcases List.mem_cons.mp hr' with rfl | hr'
          · exact .inl hr.code
          · exact hcodes r' hr'

/-- An empty payload, and one that looks like the start of a header. -/
def sampleSends : List (DmqHeader × List UInt8) :=
  [(.make 1 5, []), (.make 2 6, [0xAA, 0x55])]

/-- The two frames in three pieces. -/
def sampleFeed : Feed UInt8 :=
  [.data [0xAA, 0x55, 0, 1, 0], .data [5, 0, 0, 0xAA, 0x55, 0, 2, 0, 6, 0, 2, 0xAA], .data [0x55]]

theorem receiveCalls_sent_sample :
    List.Forall₂ Delivers sampleSends
      ((TcpTransport.receiveCalls ⟨.client, true, false⟩ [true, false, true]
        sampleFeed).1.filter (·.code = 0)) := by
  have hsends : List.Forall₂ SentFrame sampleSends
      [[0xAA, 0x55, 0, 1, 0, 5, 0, 0], [0xAA, 0x55, 0, 2, 0, 6, 0, 2, 0xAA, 0x55]] :=
    .cons ⟨by decide, by decide, by decide⟩ (.cons ⟨by decide, by decide, by decide⟩ .nil)
  exact (receiveCalls_sent ⟨.client, true, false⟩ hsends (by decide) (by decide) (by decide)).1

/-! ## Frame boundaries -/

/-- What a peer may put on a connection: any marker and any length, with as many
bytes behind the header as it announces. -/
structure WireFrame where
  header : DmqHeader
  payload : List UInt8
  length_eq : payload.length = header.length.toNat
  deriving DecidableEq

def WireFrame.bytes (f : WireFrame) : List UInt8 := f.header.bytes ++ f.payload

def bytesOf (frames : List WireFrame) : List UInt8 := frames.flatMap WireFrame.bytes

/-- The other end of a connection: the frames it sends and what arrives of them
before the connection ends. -/
structure Peer where
  frames : List WireFrame
  stream : List UInt8
  prefix_frames : stream <+: bytesOf frames
  deriving DecidableEq

/-- The first `k` frames have been read and nothing else. -/
def AtFrameNr (k : ℕ) (p : Peer) (ahead : List UInt8) : Prop :=
  p.stream = bytesOf (p.frames.take k) ++ ahead

/-- The next unread byte, if there is one, is the first byte of a frame. -/
def AtFrame (c : TcpConn Peer) : Prop :=
  c.feed.arriving = [] ∨ ∃ k ≤ c.peer.frames.length, AtFrameNr k c.peer c.feed.arriving

theorem bytesOf_append (fs gs : List WireFrame) : bytesOf (fs ++ gs) = bytesOf fs ++ bytesOf gs :=
  List.flatMap_append

theorem bytesOf_cons (f : WireFrame) (fs : List WireFrame) :
    bytesOf (f :: fs) = f.header.bytes ++ (f.payload ++ bytesOf fs) := by
  rw [bytesOf, List.flatMap_cons, WireFrame.bytes, List.append_assoc]
  rfl

/-- The bytes ahead are the beginning of the frames that have not been read. -/
theorem AtFrameNr.ahead_prefix {k : ℕ} {p : Peer} {ahead : List UInt8}
    (hk : AtFrameNr k p ahead) : ahead <+: bytesOf (p.frames.drop k) := by
  have hstream := p.prefix_frames
  rw [hk] at hstream
  nth_rewrite 2 [← List.take_append_drop k p.frames] at hstream
  rwa [bytesOf_append, List.prefix_append_right_inj] at hstream

theorem le_length_of_parse {bs body : List UInt8} {h : DmqHeader}
    (hparse : DmqHeader.parse bs = some (h, body)) :
    DmqHeader.headerSize ≤ bs.length ∧ body = bs.drop DmqHeader.headerSize := by
  rcases Nat.lt_or_ge bs.length DmqHeader.headerSize with hlt | hle
  · rw [parse_of_lt hlt] at hparse
    cases hparse
  · obtain ⟨h', hparse', -⟩ := parse_of_le hle
    rw [hparse] at hparse'
    cases hparse'
    exact ⟨hle, rfl⟩

theorem parse_append : ∀ {bs body : List UInt8} {h : DmqHeader} (more : List UInt8),
    DmqHeader.parse bs = some (h, body) → DmqHeader.parse (bs ++ more) = some (h, body ++ more)
  | _ :: _ :: _ :: _ :: _ :: _ :: _ :: _ :: _, _, _, _, hparse => by
    cases hparse
    rfl

/-- At the start of a frame, a header that is all there is the frame's, and
reading the payload behind it leads to the next frame. -/
theorem AtFrameNr.next {k : ℕ} {p : Peer} {ahead body : List UInt8} {h : DmqHeader}
    (hk : AtFrameNr k p ahead) (hparse : DmqHeader.parse ahead = some (h, body)) :
    ∃ f, p.frames[k]? = some f ∧ f.header = h ∧
      (h.length.toNat ≤ body.length → f.payload = body.take h.length.toNat ∧
        AtFrameNr (k + 1) p (body.drop h.length.toNat)) := by
  obtain ⟨hle, hbody⟩ := le_length_of_parse hparse
  obtain ⟨x, hx⟩ := hk.ahead_prefix
  have hpos : 0 < ahead.length := Nat.lt_of_lt_of_le (by decide) hle
  have hkf : k < p.frames.length := by
    by_contra hge
    rw [List.drop_eq_nil_of_le (not_lt.mp hge)] at hx
    rw [(List.append_eq_nil_iff.mp hx).1] at hpos
    exact absurd hpos (by decide)
  rw [List.drop_eq_getElem_cons hkf, bytesOf_cons] at hx
  generalize hf : p.frames[k] = f at hx
  -- the first eight bytes are the header, behind them is the payload
  have hhead : ahead.take DmqHeader.headerSize = f.header.bytes := by
    have htake := congrArg (List.take DmqHeader.headerSize) hx
    rwa [List.take_append_of_le_length hle, List.take_left' (DmqHeader.length_bytes _)] at htake
  have htail : body ++ x = f.payload ++ bytesOf (p.frames.drop (k + 1)) := by
    have hdrop := congrArg (List.drop DmqHeader.headerSize) hx
    rwa [List.drop_append_of_le_length hle, List.drop_left' (DmqHeader.length_bytes _),
      ← hbody] at hdrop
  have hahead : ahead = f.header.bytes ++ body := by
    rw [← hhead, hbody, List.take_append_drop]
  have hheader : f.header = h := by
    rw [hahead, DmqHeader.parse_bytes] at hparse
    cases hparse
    rfl
  refine ⟨f, by rw [List.getElem?_eq_getElem hkf, hf], hheader, fun hlen => ?_⟩
  have hpay : f.payload.length = h.length.toNat := by rw [f.length_eq, hheader]
  have hpayload : f.payload = body.take h.length.toNat := by
    have htake := congrArg (List.take h.length.toNat) htail
    rwa [List.take_append_of_le_length hlen, List.take_left' hpay, eq_comm] at htake
  refine ⟨hpayload, ?_⟩
  have htake : p.frames.take (k + 1) = p.frames.take k ++ [f] := by
    rw [List.take_add_one, List.getElem?_eq_getElem hkf, hf]
    rfl
  have hone : bytesOf [f] = f.header.bytes ++ f.payload := List.flatMap_singleton ..
  unfold AtFrameNr at hk ⊢
  rw [hk, htake, bytesOf_append, hone, hahead, hpayload]
  simp only [List.append_assoc, List.take_append_drop]

/-- Two frame starts are apart by whole frames. -/
theorem AtFrameNr.gap {k k' : ℕ} {p : Peer} {between ahead : List UInt8}
    (hk : AtFrameNr k p (between ++ ahead)) (hk' : AtFrameNr k' p ahead) :
    between = [] ∨ ∃ f, p.frames[k]? = some f ∧ f.bytes <+: between := by
  unfold AtFrameNr at hk hk'
  have hbetween : bytesOf (p.frames.take k') = bytesOf (p.frames.take k) ++ between := by
    rw [hk', ← List.append_assoc] at hk
    exact List.append_cancel_right hk
  rcases Nat.lt_or_ge k k' with hlt | hge
  · obtain ⟨m, rfl⟩ := Nat.exists_eq_add_of_lt hlt
    rw [Nat.add_assoc, List.take_add, bytesOf_append, List.append_cancel_left_eq] at hbetween
    cases hf : p.frames[k]? with
    | none =>
      left
      rw [← hbetween, List.drop_eq_nil_of_le (List.getElem?_eq_none_iff.mp hf)]
      rfl
    | some f =>
      right
      obtain ⟨hkf, hget⟩ := List.getElem?_eq_some_iff.mp hf
      refine ⟨f, rfl, bytesOf ((p.frames.drop (k + 1)).take m), ?_⟩
      rw [← hbetween, List.drop_eq_getElem_cons hkf, hget, List.take_succ_cons, bytesOf_cons,
        WireFrame.bytes, List.append_assoc]
  · left
    obtain ⟨m, rfl⟩ := Nat.exists_eq_add_of_le hge
    rw [List.take_add, bytesOf_append, List.append_assoc] at hbetween
    have hlen := congrArg List.length hbetween
    simp only [List.length_append] at hlen
    exact List.eq_nil_of_length_eq_zero (by omega)

/-! ### What one call needs -/

/-- The frame is not all there: the call returns -2. -/
def Short (fd : Feed UInt8) : Prop :=
  ∀ p ∈ DmqHeader.parse fd.unbroken, p.1.marker = DmqHeader.markerValue ∧
    p.1.length.toNat ≤ bufferSize ∧ p.2.length < p.1.length.toNat

instance (fd : Feed UInt8) : Decidable (Short fd) :=
  inferInstanceAs (Decidable (∀ p ∈ DmqHeader.parse fd.unbroken, _ ∧ _ ∧ _))

/-- What a call must find to leave the stream at a frame. A header that it takes
has its payload behind it, or the connection is given up, or nothing follows. A
header that it refuses announces no payload, or nothing follows. -/
def KeepsUp (type : TcpType) (fd : Feed UInt8) : Prop :=
  (DmqHeader.parse fd.unbroken = none →
    type = .server ∨ fd.unbroken = [] ∨ fd.arriving = fd.unbroken) ∧
  ∀ p ∈ DmqHeader.parse fd.unbroken,
    if p.1.marker = DmqHeader.markerValue ∧ p.1.length.toNat ≤ bufferSize then
      type = .server ∨ p.1.length.toNat ≤ p.2.length ∨ fd.arriving = fd.unbroken
    else p.1.length = 0 ∨ fd.arriving.length ≤ DmqHeader.headerSize

section Call

variable {c : TcpConn Peer} {fd : Feed UInt8}

/-- A frame that is read as a whole. -/
theorem AtFrame.advance (hc : AtFrame c) {h : DmqHeader} {body : List UInt8}
    (hparse : DmqHeader.parse c.feed.arriving = some (h, body))
    (hlen : h.length.toNat ≤ body.length) (hahead : fd.arriving = body.drop h.length.toNat) :
    AtFrame { c with feed := fd } := by
  rcases hc with hnil | ⟨k, hk, hat⟩
  · rw [hnil] at hparse
    cases hparse
  · obtain ⟨f, hf, hheader, hnext⟩ := hat.next hparse
    have hlt := (List.getElem?_eq_some_iff.mp hf).1
    right
    refine ⟨k + 1, hlt, ?_⟩
    rw [hahead]
    exact (hnext hlen).2

/-- A connection that has lost bytes and is at a frame has lost nothing, or
everything, or whole frames. -/
theorem AtFrame.lost (hc : AtFrame c) (hc' : AtFrame { c with feed := fd })
    {lost : List UInt8} (hlost : c.feed.arriving = lost ++ fd.arriving) :
    lost = [] ∨ fd.arriving = [] ∨
      ∃ k f, AtFrameNr k c.peer c.feed.arriving ∧ c.peer.frames[k]? = some f ∧
        f.bytes.length ≤ lost.length := by
  rcases hc with hnil | ⟨k, hk, hat⟩
  · rw [hnil] at hlost
    exact .inl (List.append_eq_nil_iff.mp hlost.symm).1
  · rcases hc' with hnil' | ⟨k', hk', hat'⟩
    · exact .inr (.inl hnil')
    · have hat₀ := hat
      rw [hlost] at hat₀
      rcases hat₀.gap hat' with hnil | ⟨f, hf, hpre⟩
      · exact .inl hnil
      · exact .inr (.inr ⟨k, f, hat, hf, hpre.length_le⟩)

theorem WireFrame.length_bytes (f : WireFrame) : f.bytes.length = 8 + f.header.length.toNat := by
  rw [bytes, List.length_append, DmqHeader.length_bytes, f.length_eq]
  rfl

/-- Only the header has been read: the payload has to be empty. -/
theorem atFrame_refused_iff (hc : AtFrame c) {h : DmqHeader} {body : List UInt8}
    (hparse : DmqHeader.parse c.feed.arriving = some (h, body)) (hahead : fd.arriving = body) :
    AtFrame { c with feed := fd } ↔
      h.length = 0 ∨ c.feed.arriving.length ≤ DmqHeader.headerSize := by
  obtain ⟨hle, hbody⟩ := le_length_of_parse hparse
  have hlost : c.feed.arriving = c.feed.arriving.take 8 ++ fd.arriving := by
    rw [hahead, hbody]
    exact (List.take_append_drop ..).symm
  constructor
  · intro hc'
    rcases hc.lost hc' hlost with hnil | hnil | ⟨k, f, hat, hf, hlen⟩
    · rw [hnil, List.nil_append, hahead, hbody] at hlost
      have hlen := congrArg List.length hlost
      rw [List.length_drop] at hlen
      exact absurd hle (by rw [DmqHeader.headerSize] at hlen ⊢; omega)
    · right
      rw [hnil, List.append_nil] at hlost
      rw [hlost]
      exact List.length_take_le ..
    · left
      -- a frame boundary 8 bytes on is that of an empty payload
      obtain ⟨f', hf', hheader, -⟩ := hat.next hparse
      rw [hf] at hf'
      cases hf'
      rw [f.length_bytes, hheader, List.length_take] at hlen
      exact UInt16.toNat_inj.mp (by rw [UInt16.toNat_zero]; omega)
  · rintro (hzero | hshort)
    · have hlen : h.length.toNat = 0 := by rw [hzero]; rfl
      exact hc.advance hparse (by omega) (by rw [hlen]; exact hahead)
    · left
      rw [hahead, hbody]
      exact List.drop_eq_nil_of_le hshort

/-- Less than a frame has been read and is lost. -/
theorem atFrame_short_iff (hc : AtFrame c)
    (hahead : fd.arriving = c.feed.interrupted.reduceOption)
    (hshort : ∀ k f, AtFrameNr k c.peer c.feed.arriving → c.peer.frames[k]? = some f →
      c.feed.unbroken.length < f.bytes.length) :
    AtFrame { c with feed := fd } ↔
      c.feed.unbroken = [] ∨ c.feed.arriving = c.feed.unbroken := by
  have hlost : c.feed.arriving = c.feed.unbroken ++ fd.arriving := by
    rw [hahead]
    exact c.feed.arriving_eq
  constructor
  · intro hc'
    rcases hc.lost hc' hlost with hnil | hnil | ⟨k, f, hat, hf, hlen⟩
    · exact .inl hnil
    · right
      rw [hlost, hnil, List.append_nil]
    · exact absurd (hshort k f hat hf) (not_lt.mpr hlen)
  · rintro (hnil | heq)
    · rw [hnil, List.nil_append] at hlost
      unfold AtFrame
      rw [← hlost]
      exact hc
    · left
      rw [heq] at hlost
      exact List.append_right_eq_self.mp hlost.symm

theorem keepsUp_of_parse {type : TcpType} {fd : Feed UInt8} {h : DmqHeader} {body : List UInt8}
    (hparse : DmqHeader.parse fd.unbroken = some (h, body)) :
    KeepsUp type fd ↔
      if h.marker = DmqHeader.markerValue ∧ h.length.toNat ≤ bufferSize then
        type = .server ∨ h.length.toNat ≤ body.length ∨ fd.arriving = fd.unbroken
      else h.length = 0 ∨ fd.arriving.length ≤ DmqHeader.headerSize := by
  simp [KeepsUp, hparse]

theorem keepsUp_of_none {type : TcpType} {fd : Feed UInt8}
    (hnone : DmqHeader.parse fd.unbroken = none) :
    KeepsUp type fd ↔ type = .server ∨ fd.unbroken = [] ∨ fd.arriving = fd.unbroken := by
  simp [KeepsUp, hnone]

/-- One call on a connection at the start of a frame: unless it gives the
connection up, it leaves it at the start of a frame if and only if it keeps up. -/
theorem atFrame_receiveSocket_iff {ready : Bool} (hc : AtFrame c) :
    (t.type = .server ∧ (t.receiveSocket ready c.feed).1.code = -2 ∨
        AtFrame { c with feed := (t.receiveSocket ready c.feed).2 }) ↔
      (ready = true → KeepsUp t.type c.feed) := by
  cases ready with
  | false =>
    simp only [Bool.false_eq_true, false_implies, iff_true]
    exact .inr hc
  | true =>
    simp only [true_implies]
    have hspec := t.receiveSocket_spec true c.feed
    generalize (t.receiveSocket true c.feed).1 = r, (t.receiveSocket true c.feed).2 = fd'
      at hspec ⊢
    have hrest := Feed.reduceOption_tail c.feed.head?_interrupted
    cases hspec with
    | idle hidle => cases hidle
    | noHeader hnone hfd =>
      have hahead : fd'.arriving = c.feed.interrupted.reduceOption := by
        rw [Feed.arriving, hfd, hrest]
      rw [keepsUp_of_none hnone,
        atFrame_short_iff hc hahead fun k f hat hf => ?_]
      · simp [disconnected]
      · -- a frame has at least a header
        rw [f.length_bytes]
        by_contra hle
        have hheader : DmqHeader.headerSize ≤ c.feed.unbroken.length := by
          rw [DmqHeader.headerSize]
          omega
        obtain ⟨h, hparse, -⟩ := parse_of_le hheader
        rw [hnone] at hparse
        cases hparse
    | @misframed h body _ hparse hmark hfd =>
      have hparse' := parse_append c.feed.interrupted.reduceOption hparse
      rw [← c.feed.arriving_eq] at hparse'
      rw [keepsUp_of_parse hparse, if_neg fun h => hmark h.1,
        atFrame_refused_iff hc hparse' (Feed.arriving_of_symbols hfd)]
      simp [Received.failed]
    | @oversize h body _ hparse hlen hfd =>
      have hparse' := parse_append c.feed.interrupted.reduceOption hparse
      rw [← c.feed.arriving_eq] at hparse'
      rw [keepsUp_of_parse hparse, if_neg fun h => not_le.mpr hlen h.2,
        atFrame_refused_iff hc hparse' (Feed.arriving_of_symbols hfd)]
      simp [Received.failed]
    | @cut h body _ hparse hmark hlen hcut hfd =>
      have hparse' := parse_append c.feed.interrupted.reduceOption hparse
      rw [← c.feed.arriving_eq] at hparse'
      obtain ⟨hle, hbody⟩ := le_length_of_parse hparse
      have hahead : fd'.arriving = c.feed.interrupted.reduceOption := by
        rw [Feed.arriving, hfd, hrest]
      rw [keepsUp_of_parse hparse, if_pos ⟨hmark, hlen⟩,
        atFrame_short_iff hc hahead fun k f hat hf => ?_]
      · have hne : c.feed.unbroken ≠ [] := by
          intro hnil
          rw [hnil] at hparse
          cases hparse
        simp [disconnected, hne, not_le.mpr hcut]
      · -- the payload of the frame reaches beyond what there is
        obtain ⟨f', hf', hheader, -⟩ := hat.next hparse'
        rw [hf] at hf'
        cases hf'
        have hlost := congrArg List.length hbody
        rw [List.length_drop] at hlost
        rw [DmqHeader.headerSize] at hle hlost
        rw [f.length_bytes, hheader]
        omega
    | @delivered h body _ hparse hmark hlen hbody hfd =>
      have hparse' := parse_append c.feed.interrupted.reduceOption hparse
      rw [← c.feed.arriving_eq] at hparse'
      have hnext : AtFrame { c with feed := fd' } :=
        hc.advance hparse' (by rw [List.length_append]; omega) (by
          rw [Feed.arriving_of_symbols hfd, List.drop_append_of_le_length hbody])
      rw [keepsUp_of_parse hparse, if_pos ⟨hmark, hlen⟩]
      exact ⟨fun _ => .inr (.inl hbody), fun _ => .inr hnext⟩

end Call

/-! ## A transport over a run -/

/-- `ReceiveServer` looks at its clients until one has a whole header that it
can take or refuse. -/
def ClientsKeepUp : List (TcpPoll × TcpConn Peer) → Prop
  | [] => True
  | (poll, conn) :: clients =>
    if poll.isSet = false ∨ poll.ready = true ∧ Short conn.feed then ClientsKeepUp clients
    else poll.ready = true → KeepsUp .server conn.feed

inductive TcpLabel
  | receive (client : Option (TcpConn Peer)) (poll : ℕ → TcpPoll)
  | close

/-- A connection that nothing has been read from. -/
def Fresh (c : TcpConn Peer) : Prop := c.feed.arriving = c.peer.stream

def tcpGuard : TcpLabel → Sockets Peer → Prop
  | .receive client _, _ => ∀ c ∈ client, Fresh c
  | .close, _ => True

def tcpUpdate (t : TcpTransport) : TcpLabel → Sockets Peer → Sockets Peer
  | .receive client poll, s => (t.receive client poll s).2
  | .close, _ => ⟨none, []⟩

/-- A transport between `Create` and its end. -/
def tcpLts (t : TcpTransport) : Lts (Sockets Peer) TcpLabel where
  init s := (∀ c ∈ s.connFd, Fresh c) ∧ s.serverClients = []
  guard := tcpGuard
  update := tcpUpdate t

/-- The connections that a transport reads from. -/
def Sockets.held (s : Sockets Peer) : List (TcpConn Peer) := s.connFd.toList ++ s.serverClients

/-- The side condition on a `Receive`. -/
def ReceiveKeepsUp (t : TcpTransport) : TcpLabel → Sockets Peer → Prop
  | .receive client poll, s =>
    match t.type with
    | .server => ClientsKeepUp (polled client poll s)
    | .client => ∀ c ∈ s.connFd, (poll 0).ready = true → KeepsUp .client c.feed
  | .close, _ => True

theorem short_of_disconnected {ready : Bool} {fd : Feed UInt8}
    (hcode : (t.receiveSocket ready fd).1.code = -2) : ready = true ∧ Short fd := by
  cases ready with
  | false => exact absurd hcode (by simp [receiveSocket, Received.failed])
  | true =>
    refine ⟨rfl, ?_⟩
    have hspec := t.receiveSocket_spec true fd
    generalize (t.receiveSocket true fd).1 = r, (t.receiveSocket true fd).2 = fd' at hspec hcode
    cases hspec with
    | idle => cases hcode
    | noHeader hnone hfd => simp [Short, hnone]
    | misframed => cases hcode
    | oversize => cases hcode
    | cut hparse hmark hlen hcut hfd => simp [Short, hparse, hmark, hlen, hcut]
    | delivered => cases hcode

/-- The loop of a server leaves every client that it keeps at a frame. -/
theorem atFrame_receiveClients (ht : t.type = .server) (header : Option DmqHeader)
    {clients : List (TcpPoll × TcpConn Peer)} (hclients : ∀ p ∈ clients, AtFrame p.2)
    (hkeep : ClientsKeepUp clients) :
    ∀ c ∈ (t.receiveClients header clients).2, AtFrame c := by
  induction clients generalizing header with
  | nil => exact fun c hc => absurd hc (List.not_mem_nil)
  | cons client clients ih =>
    obtain ⟨poll, conn⟩ := client
    have hconn : AtFrame conn := hclients _ (List.mem_cons_self ..)
    have hothers : ∀ p ∈ clients, AtFrame p.2 := fun p hp => hclients p (List.mem_cons_of_mem _ hp)
    unfold receiveClients
    by_cases hset : poll.isSet = true
    · rw [if_pos hset]
      dsimp only
      by_cases hgone : (t.receiveSocket poll.ready conn.feed).1.code = -2
      · -- dropped: the loop goes on
        rw [if_pos hgone]
        rw [ClientsKeepUp, if_pos (.inr (short_of_disconnected hgone))] at hkeep
        exact ih _ hothers hkeep
      · rw [if_neg hgone]
        have hready : poll.ready = true → KeepsUp t.type conn.feed := by
          intro hready
          rw [ht]
          by_cases hshort : Short conn.feed
          · -- a server does not stay with a frame that is cut
            refine ⟨fun _ => .inl rfl, fun p hp => ?_⟩
            obtain ⟨hmark, hlen, -⟩ := hshort p hp
            rw [if_pos ⟨hmark, hlen⟩]
            exact .inl rfl
          · have hbranch : ¬ (poll.isSet = false ∨ poll.ready = true ∧ Short conn.feed) := by
              simp [hset, hshort]
            rw [ClientsKeepUp, if_neg hbranch] at hkeep
            exact hkeep hready
        rcases (atFrame_receiveSocket_iff hconn).mpr hready with ⟨-, hcode⟩ | hnext
        · exact absurd hcode hgone
        · intro c hc
          rcases List.mem_cons.mp hc with rfl | hc
          · exact hnext
          · obtain ⟨p, hp, rfl⟩ := List.mem_map.mp hc
            exact hothers p hp
    · rw [if_neg hset]
      rw [ClientsKeepUp, if_pos (.inl (by simpa using hset))] at hkeep
      intro c hc
      rcases List.mem_cons.mp hc with rfl | hc
      · exact hconn
      · exact ih _ hothers hkeep c hc

theorem Fresh.atFrame {c : TcpConn Peer} (h : Fresh c) : AtFrame c :=
  .inr ⟨0, Nat.zero_le _, h.symm⟩

theorem mem_held {s : Sockets Peer} {c : TcpConn Peer} :
    c ∈ s.held ↔ c ∈ s.connFd ∨ c ∈ s.serverClients := by
  rw [Sockets.held, List.mem_append, Option.mem_toList]
  rfl

/-- One `Receive` that keeps up. -/
theorem atFrame_receive {s : Sockets Peer} {client : Option (TcpConn Peer)} {poll : ℕ → TcpPoll}
    (hs : ∀ c ∈ s.held, AtFrame c) (hclient : ∀ c ∈ client, Fresh c)
    (hkeep : ReceiveKeepsUp t (.receive client poll) s) :
    ∀ c ∈ (t.receive client poll s).2.held, AtFrame c := by
  unfold ReceiveKeepsUp at hkeep
  unfold receive
  cases ht : t.type with
  | server =>
    rw [ht] at hkeep
    -- a client that has just connected is at its first frame
    have hpolled : ∀ p ∈ polled client poll s, AtFrame p.2 := by
      intro p hp
      obtain ⟨i, hi, rfl⟩ := List.mem_mapIdx.mp hp
      rcases List.mem_append.mp (List.getElem_mem hi) with hmem | hmem
      · exact hs _ (mem_held.mpr (.inr hmem))
      · exact (hclient _ (Option.mem_toList.mp hmem)).atFrame
    intro c hc
    rcases mem_held.mp hc with hc | hc
    · exact hs c (mem_held.mpr (.inl hc))
    · exact atFrame_receiveClients ht none hpolled hkeep c hc
  | client =>
    rw [ht] at hkeep
    intro c hc
    cases hconn : s.connFd with
    | none =>
      simp only [hconn] at hc
      exact hs c hc
    | some conn =>
      simp only [hconn] at hc
      have hat : AtFrame conn := hs conn (mem_held.mpr (.inl hconn))
      rcases mem_held.mp hc with hc | hc
      · cases hc
        rcases (atFrame_receiveSocket_iff (t := t) hat).mpr
          (by rw [ht]; exact hkeep conn hconn) with ⟨hserver, -⟩ | hnext
        · rw [ht] at hserver
          cases hserver
        · exact hnext
      · exact hs c (mem_held.mpr (.inr hc))

/-- A frame that is well formed and all there is what the next call returns. -/
def ReceivesNext (t : TcpTransport) (c : TcpConn Peer) : Prop :=
  ∀ k f, AtFrameNr k c.peer c.feed.arriving → c.peer.frames[k]? = some f →
    f.header.marker = DmqHeader.markerValue → f.header.length.toNat ≤ bufferSize →
    f.bytes.length ≤ c.feed.unbroken.length →
    (t.receiveSocket true c.feed).1 = t.accepted f.header f.payload

theorem receivesNext (t : TcpTransport) (c : TcpConn Peer) : ReceivesNext t c := by
  intro k f hat hf hmark hlen hall
  rw [f.length_bytes] at hall
  have hsize : DmqHeader.headerSize ≤ c.feed.unbroken.length := by
    rw [DmqHeader.headerSize]
    omega
  obtain ⟨h, hparse, -⟩ := parse_of_le hsize
  have hparse' := parse_append c.feed.interrupted.reduceOption hparse
  rw [← c.feed.arriving_eq] at hparse'
  obtain ⟨f', hf', hheader, hnext⟩ := hat.next hparse'
  rw [hf] at hf'
  cases hf'
  have hbody : h.length.toNat ≤ (c.feed.unbroken.drop DmqHeader.headerSize).length := by
    rw [List.length_drop, DmqHeader.headerSize, ← hheader]
    omega
  have hpayload := (hnext (by rw [List.length_append]; omega)).1
  rw [List.take_append_of_le_length hbody] at hpayload
  rw [hheader] at hmark hlen
  obtain ⟨fd', hcall, -⟩ := receiveSocket_of_frame (t := t) hparse hmark hlen hbody
  rw [hcall, hpayload, hheader]

/-- In every run whose `Receive` calls keep up, each connection that a transport
still holds is at the start of a frame, and a well-formed frame there is
received. -/
theorem atFrame_of_reachable {s : Sockets Peer}
    (h : (tcpLts t).ReachableWhen (ReceiveKeepsUp t) s) :
    ∀ c ∈ s.held, AtFrame c ∧ ReceivesNext t c := by
  have hat : ∀ c ∈ s.held, AtFrame c := by
    refine h.induct (P := fun s => ∀ c ∈ s.held, AtFrame c) ?_ ?_
    · rintro s ⟨hconn, hclients⟩ c hc
      rcases mem_held.mp hc with hc | hc
      · exact (hconn c hc).atFrame
      · rw [hclients] at hc
        cases hc
    · intro l s _ hg hok ih
      cases l with
      | receive client poll => exact atFrame_receive ih hg hok
      | close => exact fun c hc => absurd hc (List.not_mem_nil)
  exact fun c hc => ⟨hat c hc, receivesNext t c⟩

/-! ### Runs -/

instance (type : TcpType) (fd : Feed UInt8) : Decidable (KeepsUp type fd) :=
  inferInstanceAs (Decidable (_ ∧ ∀ p ∈ DmqHeader.parse fd.unbroken, ite _ _ _))

instance : ∀ clients, Decidable (ClientsKeepUp clients)
  | [] => inferInstanceAs (Decidable True)
  | (_, _) :: clients =>
    have : Decidable (ClientsKeepUp clients) := instDecidableClientsKeepUp clients
    inferInstanceAs (Decidable (ite _ _ _))

instance (c : TcpConn Peer) : Decidable (Fresh c) :=
  inferInstanceAs (Decidable (c.feed.arriving = c.peer.stream))

instance (c : TcpConn Peer) : Decidable (AtFrame c) :=
  inferInstanceAs (Decidable (_ ∨ ∃ k ≤ c.peer.frames.length,
    c.peer.stream = bytesOf (c.peer.frames.take k) ++ c.feed.arriving))

instance : ∀ (l : TcpLabel) (s : Sockets Peer), Decidable ((tcpLts t).guard l s)
  | .receive client _, _ => inferInstanceAs (Decidable (∀ c ∈ client, Fresh c))
  | .close, _ => inferInstanceAs (Decidable True)

instance : ∀ (l : TcpLabel) (s : Sockets Peer), Decidable (ReceiveKeepsUp t l s)
  | .receive client poll, s =>
    match ht : t.type with
    | .server => decidable_of_iff (ClientsKeepUp (polled client poll s)) (by
        simp [ReceiveKeepsUp, ht])
    | .client =>
      decidable_of_iff (∀ c ∈ s.connFd, (poll 0).ready = true → KeepsUp .client c.feed) (by
        simp [ReceiveKeepsUp, ht])
  | .close, _ => inferInstanceAs (Decidable True)

/-- A frame with one byte of payload. -/
def oneByte (marker : UInt16) (seqNum : UInt16) (b : UInt8) : WireFrame :=
  ⟨⟨marker, 1, seqNum, 1⟩, [b], rfl⟩

/-- A foreign header without payload in front of a frame. -/
def headerFrames : List WireFrame := [⟨⟨0x1234, 1, 6, 0⟩, [], rfl⟩, oneByte 0xAA55 7 42]

/-- The same with a payload. -/
def payloadFrames : List WireFrame := [oneByte 0x1234 6 0, oneByte 0xAA55 7 42]

/-- A connection on which the frames arrive in one piece. -/
def wholeConn (frames : List WireFrame) : TcpConn Peer :=
  ⟨⟨frames, bytesOf frames, List.prefix_rfl⟩, [.data (bytesOf frames)]⟩

def allReady : ℕ → TcpPoll := fun _ => ⟨true, true⟩

def server : TcpTransport := ⟨.server, true, false⟩

/-- The foreign header is refused, and the frame behind it is next. -/
theorem atFrame_of_reachable_run : ∃ s : Sockets Peer,
    (tcpLts server).ReachableWhen (ReceiveKeepsUp server) s ∧
      s.held = [{ wholeConn headerFrames with feed := [.data (bytesOf (headerFrames.drop 1))] }] ∧
      ∀ c ∈ s.held, AtFrame c ∧ ReceivesNext server c := by
  have hinit : (tcpLts server).init ⟨none, []⟩ := ⟨by simp, rfl⟩
  obtain ⟨s, hs, hp⟩ := (tcpLts server).execWhen_reachable (ReceiveKeepsUp server) hinit
    [.receive (some (wholeConn headerFrames)) allReady]
    (fun s => s.held =
      [{ wholeConn headerFrames with feed := [.data (bytesOf (headerFrames.drop 1))] }])
    (by decide +kernel)
  exact ⟨s, hs, of_decide_eq_true hp, atFrame_of_reachable hs⟩

/-- A foreign header with a payload is refused with -1, and the connection is
kept with the payload next. -/
theorem not_atFrame_payloadFrames : ∃ s : Sockets Peer,
    (tcpLts server).Reachable s ∧ Fresh (wholeConn payloadFrames) ∧
      (server.receive (some (wholeConn payloadFrames)) allReady s).1.code = -1 ∧
      ∃ c ∈ (server.receive (some (wholeConn payloadFrames)) allReady s).2.held, ¬ AtFrame c := by
  refine ⟨⟨none, []⟩, .start ⟨by simp, rfl⟩, by decide +kernel, by decide +kernel, ?_⟩
  exact ⟨{ wholeConn payloadFrames with
    feed := [.data ((bytesOf payloadFrames).drop 8)] }, by decide +kernel, by decide +kernel⟩

end TcpTransport

end AsyncSqlite
