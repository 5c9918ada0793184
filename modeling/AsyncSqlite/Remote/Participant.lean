import AsyncSqlite.Data.RecentRing
import AsyncSqlite.Remote.Retry

/-!
# AsyncSqlite.Remote.Participant — the receiver and its duplicate filter

`Participant::ProcessIncoming` with the `SeqHistory` of each remote id. What the
filter remembers of an id are the numbers of the last `SIZE` frames of that id
that it let through (`ReceiverInv`), so it lets a number through again only
after `SIZE` others.

`DispatchSys` puts it behind a `Dispatcher`, whose one 16-bit counter numbers the
messages of all ids, and a network that delivers every frame once and in order.
There every frame is new, and `every_message_invoked_iff` says when all of them
are taken for new.
-/

namespace AsyncSqlite

/-! ## `SeqHistory` -/

/-- `SIZE` cells of sequence numbers. -/
abbrev SeqHistory (size : ℕ) := RecentRing UInt16 size

namespace SeqHistory

variable {size : ℕ} [NeZero size]

/-- `SeqHistory()` -/
def init : SeqHistory size := RecentRing.empty

/-- `is_duplicate`; a number that is not a duplicate is remembered. -/
def isDuplicate (h : SeqHistory size) (seq : UInt16) : Bool × SeqHistory size :=
  if h.contains seq then (true, h) else (false, h.push seq)

end SeqHistory

/-! ## `ProcessIncoming` -/

structure Participant (size : ℕ) where
  /-- ids with a channel in `m_channels` -/
  channels : DelegateRemoteId → Bool
  history : DelegateRemoteId → SeqHistory size

/-- What becomes of a frame. -/
inductive Incoming
  | failed
  | protocolError
  | duplicate
  | noDispatcher
  | invoked
  deriving DecidableEq

/-- The numbers of the frames of one id. -/
def numbers (id : DelegateRemoteId) (frames : List DmqHeader) : List UInt16 :=
  (frames.filter fun h => h.id = id).map DmqHeader.seqNum

namespace Participant

variable {size : ℕ} [NeZero size]

def initial : Participant size := ⟨fun _ => false, fun _ => SeqHistory.init⟩

/-- `RegisterHandler` -/
def registerHandler (p : Participant size) (id : DelegateRemoteId) : Participant size :=
  { p with channels := Function.update p.channels id true }

/-- `ProcessIncoming`, given what `Receive` returned and the header it filled in. -/
def processIncoming (p : Participant size) (result : ℤ) (header : DmqHeader) :
    ℤ × Participant size × Incoming :=
  if result = 0 then
    if header.marker ≠ DmqHeader.markerValue then (-1, p, .protocolError)
    else if p.channels header.id then
      if header.id ≠ ackRemoteId then
        let r := (p.history header.id).isDuplicate header.seqNum
        let p' := { p with history := Function.update p.history header.id r.2 }
        if r.1 then (0, p', .duplicate) else (0, p', .invoked)
      else (0, p, .invoked)
    else (result, p, .noDispatcher)
  else (result, p, .failed)

/-- The history of an id holds what was let through, which is spaced. -/
structure ReceiverInv (p : Participant size) (invoked : List DmqHeader) : Prop where
  history : ∀ id, id ≠ ackRemoteId → (p.history id).Holds (numbers id invoked)
  spaced : ∀ id, id ≠ ackRemoteId → Spaced size (numbers id invoked)

theorem numbers_concat (id : DelegateRemoteId) (l : List DmqHeader) (h : DmqHeader) :
    numbers id (l ++ [h]) = numbers id l ++ if h.id = id then [h.seqNum] else [] := by
  unfold numbers
  rw [List.filter_append, List.map_append]
  congr 1
  by_cases hid : h.id = id <;> simp [hid]

theorem ReceiverInv.initial : ReceiverInv (initial : Participant size) [] :=
  ⟨fun _ _ => RecentRing.holds_empty, fun _ _ => spaced_nil⟩

variable {p : Participant size} {invoked : List DmqHeader} {result : ℤ} {header : DmqHeader}

/-- A frame reaches the filter. -/
def Offered (p : Participant size) (result : ℤ) (header : DmqHeader) : Prop :=
  result = 0 ∧ header.marker = DmqHeader.markerValue ∧ p.channels header.id = true

/-- A frame that does not reach the filter changes nothing. -/
theorem not_offered (h : ¬ p.Offered result header) :
    (p.processIncoming result header).2.1 = p ∧
      (p.processIncoming result header).2.2 ≠ .invoked := by
  unfold processIncoming
  by_cases hr : result = 0
  · by_cases hm : header.marker = DmqHeader.markerValue
    · have hc : p.channels header.id = false := by
        simpa using fun hc => h ⟨hr, hm, hc⟩
      simp [hr, hm, hc]
    · simp [hr, hm]
  · simp [hr]

/-- A number that was let through lately is a duplicate, and nothing changes. -/
theorem offered_duplicate (hi : ReceiverInv p invoked) (h : p.Offered result header)
    (hid : header.id ≠ ackRemoteId)
    (hrecent : header.seqNum ∈ recent size (numbers header.id invoked)) :
    (p.processIncoming result header).2 = (p, .duplicate) := by
  have hcont := (hi.history header.id hid).contains_iff.mpr hrecent
  obtain ⟨rfl, hm, hc⟩ := h
  unfold processIncoming
  simp [hm, hc, hid, SeqHistory.isDuplicate, hcont]

/-- An acknowledgement leaves no trace in the histories. -/
theorem ReceiverInv.ack (hi : ReceiverInv p invoked) (hid : header.id = ackRemoteId) :
    ReceiverInv p (invoked ++ [header]) := by
  refine ⟨fun id hne => ?_, fun id hne => ?_⟩
  · rw [numbers_concat, if_neg (by rw [hid]; exact hne.symm), List.append_nil]
    exact hi.history id hne
  · rw [numbers_concat, if_neg (by rw [hid]; exact hne.symm), List.append_nil]
    exact hi.spaced id hne

/-- A number that is not among the recent ones of its id is pushed. -/
theorem ReceiverInv.push (hi : ReceiverInv p invoked) (hid : header.id ≠ ackRemoteId)
    (hnew : header.seqNum ∉ recent size (numbers header.id invoked)) :
    ReceiverInv ⟨p.channels, Function.update p.history header.id
      ((p.history header.id).push header.seqNum)⟩ (invoked ++ [header]) := by
  refine ⟨fun id hne => ?_, fun id hne => ?_⟩
  · rw [numbers_concat]
    show (Function.update p.history header.id _ id).Holds _
    by_cases hsame : id = header.id
    · subst hsame
      rw [Function.update_self, if_pos rfl]
      exact (hi.history _ hid).push header.seqNum
    · rw [Function.update_of_ne hsame, if_neg (Ne.symm hsame), List.append_nil]
      exact hi.history id hne
  · rw [numbers_concat]
    by_cases hsame : id = header.id
    · subst hsame
      rw [if_pos rfl]
      exact spaced_concat.mpr ⟨hi.spaced _ hid, hnew⟩
    · rw [if_neg (Ne.symm hsame), List.append_nil]
      exact hi.spaced id hne

/-- Every other frame is let through and remembered. -/
theorem offered_new (hi : ReceiverInv p invoked) (h : p.Offered result header)
    (hnew : header.id ≠ ackRemoteId →
      header.seqNum ∉ recent size (numbers header.id invoked)) :
    (p.processIncoming result header).2.2 = .invoked ∧
      (p.processIncoming result header).2.1.channels = p.channels ∧
      ReceiverInv (p.processIncoming result header).2.1 (invoked ++ [header]) := by
  obtain ⟨rfl, hm, hc⟩ := h
  by_cases hid : header.id = ackRemoteId
  · -- the filter does not look at acknowledgements
    have heq : p.processIncoming 0 header = (0, p, .invoked) := by
      rw [hid] at hc
      unfold processIncoming
      simp [hm, hc, hid]
    rw [heq]
    exact ⟨rfl, rfl, hi.ack hid⟩
  · have hcont : (p.history header.id).contains header.seqNum = false := by
      rw [Bool.eq_false_iff]
      exact fun hcont => hnew hid ((hi.history header.id hid).contains_iff.mp hcont)
    have heq : p.processIncoming 0 header =
        (0, ⟨p.channels, Function.update p.history header.id
          ((p.history header.id).push header.seqNum)⟩, .invoked) := by
      unfold processIncoming
      simp [hm, hc, hid, SeqHistory.isDuplicate, hcont]
    rw [heq]
    exact ⟨rfl, rfl, hi.push hid (hnew hid)⟩

/-- The three cases of a frame that arrives. -/
theorem incoming_cases (hi : ReceiverInv p invoked) (result : ℤ) (header : DmqHeader) :
    ((p.processIncoming result header).2.1 = p ∧
      (p.processIncoming result header).2.2 ≠ .invoked) ∨
    ((p.processIncoming result header).2.2 = .invoked ∧ p.Offered result header ∧
      (p.processIncoming result header).2.1.channels = p.channels ∧
      ReceiverInv (p.processIncoming result header).2.1 (invoked ++ [header])) := by
  by_cases hoff : p.Offered result header
  · by_cases hdup : header.id ≠ ackRemoteId ∧
        header.seqNum ∈ recent size (numbers header.id invoked)
    · left
      rw [offered_duplicate hi hoff hdup.1 hdup.2]
      exact ⟨rfl, nofun⟩
    · obtain ⟨hinv, hchan, hnext⟩ := offered_new hi hoff fun hid hmem => hdup ⟨hid, hmem⟩
      exact Or.inr ⟨hinv, hoff, hchan, hnext⟩
  · exact Or.inl (not_offered hoff)

end Participant

/-! ## A dispatcher, an ordered network and a receiver -/

/-- A message by its position among all messages of the process, and its id. -/
abbrev Position := ℕ × DelegateRemoteId

structure DispatchSys (size : ℕ) where
  /-- `Dispatcher::m_seqNum` -/
  seqNum : UInt16
  /-- the frames sent, in order -/
  sent : List DmqHeader
  delivered : ℕ
  receiver : Participant size
  /-- messages that arrived for an id with a handler -/
  offered : List Position
  invoked : List Position

inductive DispatchLabel
  | dispatch (id : DelegateRemoteId)
  | register (id : DelegateRemoteId)
  | deliver

namespace DispatchSys

variable {size : ℕ} [NeZero size] {s : DispatchSys size}

def initial : DispatchSys size := ⟨0, [], 0, .initial, [], []⟩

/-- The frame of the message at a position. -/
def frame (f : Position) : DmqHeader := .make f.2 (UInt16.ofNat f.1)

def guard : DispatchLabel → DispatchSys size → Prop
  | .deliver, s => s.delivered < s.sent.length
  | _, _ => True

/-- `Dispatch`: `m_seqNum.fetch_add(1)`, then `Send` with that number. -/
def dispatch (s : DispatchSys size) (id : DelegateRemoteId) : DispatchSys size :=
  { s with seqNum := s.seqNum + 1, sent := s.sent ++ [.make id s.seqNum] }

def deliver (s : DispatchSys size) : DispatchSys size :=
  match s.sent[s.delivered]? with
  | some header =>
    let r := s.receiver.processIncoming 0 header
    { s with
      delivered := s.delivered + 1
      receiver := r.2.1
      offered := if s.receiver.channels header.id then s.offered ++ [(s.delivered, header.id)]
        else s.offered
      invoked := if r.2.2 = .invoked then s.invoked ++ [(s.delivered, header.id)]
        else s.invoked }
  | none => s

def update : DispatchLabel → DispatchSys size → DispatchSys size
  | .dispatch id, s => s.dispatch id
  | .register id, s => { s with receiver := s.receiver.registerHandler id }
  | .deliver, s => s.deliver

end DispatchSys

def dispatchLts (size : ℕ) [NeZero size] : Lts (DispatchSys size) DispatchLabel where
  init s := s = DispatchSys.initial
  guard := DispatchSys.guard
  update := DispatchSys.update

namespace DispatchSys

variable {size : ℕ} [NeZero size] {s : DispatchSys size}

/-- The counter values of the messages of one id. -/
def residues (id : DelegateRemoteId) (l : List Position) : List ℕ :=
  (l.filter fun f => f.2 = id).map fun f => f.1 % 65536

/-- Two messages of one id with the same counter value have `size` messages of
this id between them. -/
def WellSpaced (size : ℕ) (l : List Position) : Prop :=
  ∀ id, id ≠ ackRemoteId → Spaced size (residues id l)

theorem numbers_frames (id : DelegateRemoteId) (l : List Position) :
    (numbers id (l.map frame)).map UInt16.toNat = residues id l := by
  unfold numbers residues
  induction l with
  | nil => rfl
  | cons f l ih =>
    by_cases hf : f.2 = id
    · simpa [frame, DmqHeader.make, hf, UInt16.toNat_ofNat'] using ih
    · simpa [frame, DmqHeader.make, hf] using ih

omit [NeZero size] in
theorem mem_recent_numbers {id : DelegateRemoteId} {l : List Position} {n : ℕ} :
    UInt16.ofNat n ∈ recent size (numbers id (l.map frame)) ↔
      n % 65536 ∈ recent size (residues id l) := by
  have hmap : recent size (residues id l) =
      (recent size (numbers id (l.map frame))).map UInt16.toNat := by
    rw [← numbers_frames]
    unfold recent
    rw [List.length_map, List.map_drop]
  rw [hmap, List.mem_map]
  constructor
  · intro h
    exact ⟨_, h, UInt16.toNat_ofNat' ..⟩
  · rintro ⟨x, hx, heq⟩
    have hxn : x = UInt16.ofNat n :=
      UInt16.toNat_inj.mp (heq.trans (UInt16.toNat_ofNat' ..).symm)
    rwa [← hxn]

theorem residues_concat (id : DelegateRemoteId) (l : List Position) (f : Position) :
    residues id (l ++ [f]) = residues id l ++ if f.2 = id then [f.1 % 65536] else [] := by
  unfold residues
  rw [List.filter_append, List.map_append]
  congr 1
  by_cases hf : f.2 = id <;> simp [hf]

omit [NeZero size] in
theorem wellSpaced_concat {l : List Position} {f : Position} :
    WellSpaced size (l ++ [f]) ↔ WellSpaced size l ∧
      (f.2 ≠ ackRemoteId → f.1 % 65536 ∉ recent size (residues f.2 l)) := by
  constructor
  · intro h
    refine ⟨fun id hid => ?_, fun hid => ?_⟩
    · have hs := h id hid
      rw [residues_concat] at hs
      split_ifs at hs
      · exact (spaced_concat.mp hs).1
      · rwa [List.append_nil] at hs
    · have hs := h f.2 hid
      rw [residues_concat, if_pos rfl] at hs
      exact (spaced_concat.mp hs).2
  · rintro ⟨hl, hf⟩ id hid
    rw [residues_concat]
    split_ifs with hfid
    · subst hfid
      exact spaced_concat.mpr ⟨hl _ hid, hf hid⟩
    · rw [List.append_nil]
      exact hl id hid

structure DispatchInv (s : DispatchSys size) : Prop where
  counter : s.seqNum = UInt16.ofNat s.sent.length
  sent : ∀ i h, s.sent[i]? = some h → h = frame (i, h.id)
  receiver : s.receiver.ReceiverInv (s.invoked.map frame)
  offered : ∀ f ∈ s.offered, f.1 < s.delivered
  invoked : ∀ f ∈ s.invoked, f.1 < s.delivered
  /-- either everything was let through so far, or a repeated number was not -/
  verdict : s.invoked = s.offered ∧ WellSpaced size s.offered ∨
    (∃ f ∈ s.offered, f ∉ s.invoked) ∧ ¬ WellSpaced size s.offered

theorem DispatchInv.initial : DispatchInv (initial : DispatchSys size) := by
  refine ⟨rfl, ?_, Participant.ReceiverInv.initial, nofun, nofun, Or.inl ⟨rfl, ?_⟩⟩
  · intro i h hi
    simp [DispatchSys.initial] at hi
  · exact fun _ _ => spaced_nil

theorem DispatchInv.dispatch (h : DispatchInv s) (id : DelegateRemoteId) :
    DispatchInv (s.dispatch id) := by
  obtain ⟨hcount, hsent, hrecv, hoff, hinv, hv⟩ := h
  refine ⟨?_, ?_, hrecv, hoff, hinv, hv⟩
  · show s.seqNum + 1 = UInt16.ofNat (s.sent ++ [DmqHeader.make id s.seqNum]).length
    rw [hcount, List.length_append, List.length_singleton]
    exact (UInt16.ofNat_add ..).symm
  · intro i header hi
    have hi' : (s.sent ++ [.make id s.seqNum])[i]? = some header := hi
    rcases lt_trichotomy i s.sent.length with hlt | rfl | hgt
    · rw [List.getElem?_append_left hlt] at hi'
      exact hsent i header hi'
    · rw [List.getElem?_concat_length] at hi'
      rw [← Option.some.inj hi', hcount]
      rfl
    · rw [List.getElem?_eq_none (by simp; omega)] at hi'
      cases hi'

/-- A message for an id without a handler. -/
theorem DispatchInv.skip (h : DispatchInv s) {receiver : Participant size}
    (hrecv : receiver.ReceiverInv (s.invoked.map frame)) :
    DispatchInv { s with delivered := s.delivered + 1, receiver := receiver } :=
  ⟨h.counter, h.sent, hrecv, fun f hf => (h.offered f hf).trans (Nat.lt_succ_self _),
    fun f hf => (h.invoked f hf).trans (Nat.lt_succ_self _), h.verdict⟩

theorem DispatchInv.deliver (h : DispatchInv s) (hg : s.delivered < s.sent.length) :
    DispatchInv s.deliver := by
  obtain ⟨header, hheader⟩ : ∃ header, s.sent[s.delivered]? = some header :=
    ⟨_, List.getElem?_eq_getElem hg⟩
  have hframe := h.sent _ _ hheader
  set f : Position := (s.delivered, header.id) with hf
  have hnotin : ∀ l : List Position, (∀ g ∈ l, g.1 < s.delivered) → f ∉ l :=
    fun l hl hmem => lt_irrefl _ (hl f hmem)
  have hlt : ∀ l : List Position, (∀ g ∈ l, g.1 < s.delivered) →
      ∀ g ∈ l ++ [f], g.1 < s.delivered + 1 := by
    intro l hl g hgl
    rcases List.mem_append.mp hgl with hgl | hgl
    · exact (hl g hgl).trans (Nat.lt_succ_self _)
    · rw [List.mem_singleton.mp hgl]
      exact Nat.lt_succ_self _
  have hle : ∀ l : List Position, (∀ g ∈ l, g.1 < s.delivered) →
      ∀ g ∈ l, g.1 < s.delivered + 1 := fun l hl g hgl => (hl g hgl).trans (Nat.lt_succ_self _)
  unfold DispatchSys.deliver
  rw [hheader]
  dsimp only
  by_cases hchan : s.receiver.channels header.id = true
  · have hoff : s.receiver.Offered 0 header := ⟨rfl, by rw [hframe]; rfl, hchan⟩
    rw [if_pos hchan]
    by_cases hdup : header.id ≠ ackRemoteId ∧
        header.seqNum ∈ recent size (numbers header.id (s.invoked.map frame))
    · -- the filter takes the message for a duplicate
      rw [Participant.offered_duplicate h.receiver hoff hdup.1 hdup.2]
      simp only [reduceCtorEq, if_false]
      refine ⟨h.counter, h.sent, h.receiver, hlt _ h.offered, hle _ h.invoked, Or.inr ?_⟩
      refine ⟨⟨f, List.mem_append_right _ (List.mem_singleton_self f),
        hnotin _ h.invoked⟩, fun hws => ?_⟩
      obtain ⟨hold, hnew⟩ := wellSpaced_concat.mp hws
      rcases h.verdict with ⟨heq, -⟩ | ⟨-, hbad⟩
      · refine hnew hdup.1 ?_
        rw [← heq, ← mem_recent_numbers]
        have hmem := hdup.2
        rw [show header.seqNum = UInt16.ofNat s.delivered by rw [hframe]; rfl] at hmem
        exact hmem
      · exact hbad hold
    · obtain ⟨hinv, -, hrecv⟩ := Participant.offered_new h.receiver hoff
        fun hid hmem => hdup ⟨hid, hmem⟩
      rw [if_pos hinv]
      have hmap : (s.invoked ++ [f]).map frame = s.invoked.map frame ++ [header] := by
        rw [List.map_append, List.map_singleton, ← hframe]
      refine ⟨h.counter, h.sent, hmap ▸ hrecv, hlt _ h.offered, hlt _ h.invoked, ?_⟩
      rcases h.verdict with ⟨heq, hws⟩ | ⟨⟨g, hg₁, hg₂⟩, hbad⟩
      · left
        refine ⟨by rw [heq], wellSpaced_concat.mpr ⟨hws, fun hid hmem => ?_⟩⟩
        refine hdup ⟨hid, ?_⟩
        rw [← heq, ← mem_recent_numbers] at hmem
        rw [show header.seqNum = UInt16.ofNat s.delivered by rw [hframe]; rfl]
        exact hmem
      · right
        refine ⟨⟨g, List.mem_append_left _ hg₁, fun hmem => ?_⟩, fun hws =>
          hbad (wellSpaced_concat.mp hws).1⟩
        rcases List.mem_append.mp hmem with hmem | hmem
        · exact hg₂ hmem
        · have hgf : g = f := List.mem_singleton.mp hmem
          rw [hgf] at hg₁
          exact hnotin _ h.offered hg₁
  · have hoff : ¬ s.receiver.Offered 0 header := fun hoff => hchan hoff.2.2
    obtain ⟨hsame, hninv⟩ := Participant.not_offered hoff
    rw [if_neg hchan, if_neg hninv, hsame]
    exact h.skip h.receiver

theorem dispatch_of_reachable (h : (dispatchLts size).Reachable s) : DispatchInv s := by
  refine h.induct ?_ ?_
  · rintro s rfl
    exact DispatchInv.initial
  · intro l s _ hg _ hi
    cases l with
    | dispatch id => exact hi.dispatch id
    | register id =>
      exact ⟨hi.counter, hi.sent, ⟨hi.receiver.history, hi.receiver.spaced⟩, hi.offered,
        hi.invoked, hi.verdict⟩
    | deliver => exact hi.deliver hg

/-- Every message that arrived for an id with a handler was passed to it, if and
only if the messages of each id with the same counter value are far enough
apart. -/
theorem every_message_invoked_iff (h : (dispatchLts size).Reachable s) :
    (∀ f ∈ s.offered, f ∈ s.invoked) ↔ WellSpaced size s.offered := by
  rcases (dispatch_of_reachable h).verdict with ⟨heq, hws⟩ | ⟨⟨f, hf, hnf⟩, hbad⟩
  · rw [heq]
    exact iff_of_true (fun _ hf => hf) hws
  · exact iff_of_false (fun hall => hnf (hall f hf)) hbad

/-! ## Runs -/

instance (l : DispatchLabel) (s : DispatchSys size) : Decidable ((dispatchLts size).guard l s) :=
  match l with
  | .dispatch _ | .register _ => isTrue trivial
  | .deliver => inferInstanceAs (Decidable (s.delivered < s.sent.length))

/-- Three messages, one of them for an id without a handler. -/
def mixedRun : List DispatchLabel :=
  [DispatchLabel.register 1, .dispatch 1, .dispatch 2, .dispatch 1, .deliver, .deliver, .deliver]

theorem every_message_invoked_iff_run : ∃ s : DispatchSys 8,
    ((∀ f ∈ s.offered, f ∈ s.invoked) ↔ WellSpaced 8 s.offered) ∧
      s.offered = [(0, 1), (2, 1)] ∧ s.invoked = [(0, 1), (2, 1)] := by
  obtain ⟨s, hs, hp⟩ := (dispatchLts 8).execWhen_reachable Lts.always rfl mixedRun
    (fun s => s.offered = [(0, 1), (2, 1)] ∧ s.invoked = [(0, 1), (2, 1)]) (by decide)
  exact ⟨s, every_message_invoked_iff hs, of_decide_eq_true hp⟩

/-- A message is sent and delivered; both ids have handlers. -/
def exchange (s : DispatchSys size) (id : DelegateRemoteId) : DispatchSys size :=
  (s.dispatch id).deliver

theorem exchange_reachable {id : DelegateRemoteId} (h : (dispatchLts size).Reachable s)
    (hd : s.delivered = s.sent.length) (hc : s.receiver.channels id = true) :
    (dispatchLts size).Reachable (s.exchange id) ∧
      (s.exchange id).delivered = (s.exchange id).sent.length ∧
      (s.exchange id).sent.length = s.sent.length + 1 ∧
      (s.exchange id).receiver.channels = s.receiver.channels ∧
      (s.exchange id).offered = s.offered ++ [(s.sent.length, id)] := by
  have hr : (dispatchLts size).Reachable (s.dispatch id) :=
    h.next (M := dispatchLts size) (l := .dispatch id) trivial trivial
  have hg : (s.dispatch id).delivered < (s.dispatch id).sent.length := by
    simp [dispatch, hd]
  have hget : (s.dispatch id).sent[(s.dispatch id).delivered]? =
      some (.make id s.seqNum) := by
    simp [dispatch, hd]
  have hr' : (dispatchLts size).Reachable (s.exchange id) :=
    hr.next (M := dispatchLts size) (l := .deliver) hg trivial
  refine ⟨hr', ?_⟩
  have hchan : ((s.dispatch id).receiver.processIncoming 0 (.make id s.seqNum)).2.1.channels =
      s.receiver.channels := by
    rcases Participant.incoming_cases (dispatch_of_reachable hr).receiver 0 (.make id s.seqNum)
      with ⟨hsame, -⟩ | ⟨-, -, hchan, -⟩
    · rw [hsame]
      rfl
    · exact hchan
  unfold exchange deliver
  rw [hget]
  refine ⟨by simp [dispatch, hd], by simp [dispatch], hchan, ?_⟩
  have hc' : (s.dispatch id).receiver.channels (DmqHeader.make id s.seqNum).id = true := hc
  simp only [hc', if_true]
  simp [dispatch, hd, DmqHeader.make]

/-- Any number of messages for another id between two messages for one id. -/
theorem traffic_reachable (n : ℕ) : ∃ s : DispatchSys 8, (dispatchLts 8).Reachable s ∧
    s.delivered = s.sent.length ∧ s.sent.length = n + 1 ∧ s.receiver.channels 1 = true ∧
      s.receiver.channels 2 = true ∧ s.offered.filter (fun f => f.2 = 1) = [(0, 1)] := by
  induction n with
  | zero =>
    obtain ⟨s, hs, hp⟩ := (dispatchLts 8).execWhen_reachable Lts.always rfl
      [.register 1, .register 2, .dispatch 1, .deliver]
      (fun s => s.delivered = s.sent.length ∧ s.sent.length = 0 + 1 ∧
        s.receiver.channels 1 = true ∧ s.receiver.channels 2 = true ∧
        s.offered.filter (fun f => f.2 = 1) = [(0, 1)]) (by decide)
    exact ⟨s, hs, of_decide_eq_true hp⟩
  | succ n ih =>
    obtain ⟨s, hs, hd, hlen, hc₁, hc₂, hoff⟩ := ih
    obtain ⟨hr, hd', hlen', hchan, hoff'⟩ := exchange_reachable hs hd hc₂
    refine ⟨s.exchange 2, hr, hd', by rw [hlen', hlen], by rw [hchan, hc₁],
      by rw [hchan, hc₂], ?_⟩
    rw [hoff', List.filter_append, hoff]
    rfl

/-- After 65535 messages for another id, a new message is taken for a
duplicate. -/
theorem new_message_dropped : ∃ s : DispatchSys 8, (dispatchLts 8).Reachable s ∧
    s.delivered = s.sent.length ∧ (65536, 1) ∈ s.offered ∧
      ¬ ∀ f ∈ s.offered, f ∈ s.invoked := by
  obtain ⟨s, hs, hd, hlen, hc, -, hoff⟩ := traffic_reachable 65535
  obtain ⟨hr, hd', hlen', -, hoff'⟩ := exchange_reachable hs hd hc
  refine ⟨s.exchange 1, hr, hd', by simp [hoff', hlen], fun hall => ?_⟩
  have hres : residues 1 (s.exchange 1).offered = [0, 0] := by
    unfold residues
    rw [hoff', List.filter_append, hoff, hlen]
    rfl
  rcases (dispatch_of_reachable hr).verdict with ⟨-, hws⟩ | ⟨⟨f, hf, hnf⟩, -⟩
  · -- the two messages for id 1 have no other one between them
    have hspaced := hws 1 (by decide)
    rw [hres] at hspaced
    exact absurd (hspaced [] 0 [] [] rfl) (by decide)
  · exact hnf (hall f hf)

end DispatchSys

end AsyncSqlite
