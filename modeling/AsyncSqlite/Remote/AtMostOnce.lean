import AsyncSqlite.Remote.Participant
import AsyncSqlite.Remote.Resend

/-!
# AsyncSqlite.Remote.AtMostOnce — retransmissions and the duplicate filter

A sender with a `RetryMonitor`, a receiver with the duplicate filter, and a
network between them that loses, duplicates, delays and reorders frames: any
transmission that was ever made may arrive at any time, any number of times.
Acknowledgements that reach the sender are its own steps.

A message keeps its header in every transmission, so a second invocation for it
is a second frame with one number. The filter lets that through only after
`SIZE` other frames of the id, and not at all for the reserved id, which it does
not filter.
-/

namespace AsyncSqlite

structure LossySys (cfg : MonitorConfig) (size : ℕ) where
  sender : RetrySys cfg
  receiver : Participant size
  /-- the messages whose handler was invoked, with the frame that arrived -/
  invoked : List (ℕ × DmqHeader)

inductive LossyLabel
  | sender (l : RetryLabel)
  | register (id : DelegateRemoteId)
  | deliver (t : Transmission)

namespace LossySys

variable {cfg : MonitorConfig} {maxRetries : ℤ} {size : ℕ} [NeZero size] {s : LossySys cfg size}

def initial : LossySys cfg size := ⟨.initial cfg, .initial, []⟩

/-- Only what was sent arrives. -/
def guard : LossyLabel → LossySys cfg size → Prop
  | .sender l, s => RetrySys.guard l s.sender
  | .register _, _ => True
  | .deliver t, s => t ∈ s.sender.closed ∧ t.wire.isSome

def deliver (s : LossySys cfg size) (t : Transmission) : LossySys cfg size :=
  match t.wire with
  | some copy =>
    let r := s.receiver.processIncoming 0 copy.header
    { s with
      receiver := r.2.1
      invoked := if r.2.2 = .invoked then s.invoked ++ [(t.owner, copy.header)] else s.invoked }
  | none => s

def update (maxRetries : ℤ) : LossyLabel → LossySys cfg size → LossySys cfg size
  | .sender l, s => { s with sender := RetrySys.update maxRetries l s.sender }
  | .register id, s => { s with receiver := s.receiver.registerHandler id }
  | .deliver t, s => s.deliver t

end LossySys

def lossyLts (cfg : MonitorConfig) (maxRetries : ℤ) (size : ℕ) [NeZero size] :
    Lts (LossySys cfg size) LossyLabel where
  init s := s = LossySys.initial
  guard := LossySys.guard
  update := LossySys.update maxRetries

namespace LossySys

variable {cfg : MonitorConfig} {maxRetries : ℤ} {size : ℕ} [NeZero size] {s : LossySys cfg size}

theorem sender_of_reachable (h : (lossyLts cfg maxRetries size).Reachable s) :
    (retryLts cfg maxRetries).Reachable s.sender := by
  refine h.map (f := LossySys.sender) ?_ ?_
  · rintro s rfl
    rfl
  · intro l s _ hg _
    cases l with
    | sender l => exact Or.inr ⟨l, hg, trivial, rfl⟩
    | register id => exact Or.inl rfl
    | deliver t =>
      left
      show (s.deliver t).sender = s.sender
      unfold deliver
      split <;> rfl

/-! ## Invariant -/

structure LossyInv (s : LossySys cfg size) : Prop where
  receiver : s.receiver.ReceiverInv (s.invoked.map Prod.snd)
  /-- the frame that arrived is that of the message -/
  header : ∀ f ∈ s.invoked, f.1 < s.sender.begun ∧ f.2 = (s.sender.message f.1).header

/-- A message keeps its arguments. -/
theorem message_step {l : RetryLabel} {t : RetrySys cfg} {j : ℕ} (hj : j < t.begun)
    (hg : RetrySys.guard l t) :
    j < (RetrySys.update maxRetries l t).begun ∧
      (RetrySys.update maxRetries l t).message j = t.message j := by
  cases l with
  | begin os header =>
    exact ⟨hj.trans (Nat.lt_succ_self _), Function.update_of_ne (ne_of_lt hj) ..⟩
  | emit p =>
    obtain ⟨r, -, -, heq⟩ := RetrySys.emit_eq hg
    show j < (t.emit p).begun ∧ (t.emit p).message j = _
    rw [heq]
    exact ⟨hj, rfl⟩
  | handle p =>
    obtain ⟨r, hc⟩ := RetrySys.entered_of_guard hg
    show j < (t.handle p).begun ∧ (t.handle p).message j = _
    rcases RetrySys.handle_cases hc with ⟨-, heq⟩ | ⟨e, -, ⟨-, heq⟩ | ⟨-, heq⟩ | ⟨-, heq⟩⟩ <;>
      rw [heq] <;> exact ⟨hj, rfl⟩
  | readd p now =>
    show j < (t.readd p now).begun ∧ (t.readd p now).message j = _
    rcases RetrySys.readd_cases hg with ⟨key, copy, owner, -, ⟨-, heq⟩ | heq⟩ | ⟨header, -, heq⟩ <;>
      rw [heq] <;> exact ⟨hj, rfl⟩
  | resend p =>
    obtain ⟨copy, owner, -, heq⟩ := RetrySys.resend_eq hg
    show j < (t.resend p).begun ∧ (t.resend p).message j = _
    rw [heq]
    exact ⟨hj, rfl⟩
  | giveUp p =>
    obtain ⟨key, -, heq⟩ := RetrySys.giveUp_eq hg
    show j < (t.giveUp p).begun ∧ (t.giveUp p).message j = _
    rw [heq]
    exact ⟨hj, rfl⟩
  | add i now =>
    show j < (t.add i now).begun ∧ (t.add i now).message j = _
    rcases RetrySys.add_cases t i now with ⟨-, heq⟩ | heq <;> rw [heq] <;> exact ⟨hj, rfl⟩
  | finish i =>
    show j < (t.finish i).begun ∧ (t.finish i).message j = _
    rcases RetrySys.finish_cases hg with ⟨result, -, heq⟩ | ⟨-, heq⟩ <;> rw [heq] <;>
      exact ⟨hj, rfl⟩
  | monitor l => exact ⟨hj, rfl⟩
  | send i result => exact ⟨hj, rfl⟩

theorem LossyInv.deliver (h : LossyInv s) (hf : s.sender.FlightInv) {t : Transmission}
    (hg : guard (.deliver t) s) : LossyInv (s.deliver t) := by
  obtain ⟨hmem, hwire⟩ := hg
  obtain ⟨copy, hcopy⟩ := Option.isSome_iff_exists.mp hwire
  obtain ⟨hlt, hsame⟩ := hf.identical t hmem
  unfold LossySys.deliver
  rw [hcopy]
  dsimp only
  rcases Participant.incoming_cases h.receiver 0 copy.header with ⟨hp, hn⟩ | ⟨hinv, -, -, hrecv⟩
  · rw [hp, if_neg hn]
    exact ⟨h.receiver, h.header⟩
  · rw [if_pos hinv]
    refine ⟨?_, fun f hfm => ?_⟩
    · rw [List.map_append]
      exact hrecv
    · rcases List.mem_append.mp hfm with hfm | hfm
      · exact h.header f hfm
      · rw [List.mem_singleton.mp hfm]
        exact ⟨hlt, by rw [hsame copy hcopy]⟩

theorem lossy_of_reachable (h : (lossyLts cfg maxRetries size).Reachable s) : LossyInv s := by
  refine h.induct ?_ ?_
  · rintro s rfl
    exact ⟨Participant.ReceiverInv.initial, nofun⟩
  · intro l s hr hg _ hi
    cases l with
    | sender l =>
      refine ⟨hi.receiver, fun f hf => ?_⟩
      obtain ⟨hlt, heq⟩ := hi.header f hf
      obtain ⟨hlt', hmsg⟩ := @message_step _ maxRetries l _ _ hlt hg
      exact ⟨hlt', heq.trans (congrArg RetryMessage.header hmsg.symm)⟩
    | register id => exact ⟨⟨hi.receiver.history, hi.receiver.spaced⟩, hi.header⟩
    | deliver t =>
      exact hi.deliver (RetrySys.flight_of_reachable (sender_of_reachable hr)) hg

/-! ## Repeated invocations -/

omit [NeZero size] in
/-- Two frames with one id and number are let through only at a distance. -/
theorem numbers_distance {l : List DmqHeader} {h : DmqHeader} (front mid back : List DmqHeader)
    (hs : Spaced size (numbers h.id l)) (hl : l = front ++ h :: (mid ++ h :: back)) :
    size ≤ (numbers h.id mid).length := by
  refine hs (numbers h.id front) h.seqNum (numbers h.id mid) (numbers h.id back) ?_
  rw [hl]
  simp [numbers]

instance (l : LossyLabel) (s : LossySys cfg size) :
    Decidable ((lossyLts cfg maxRetries size).guard l s) :=
  match l with
  | .sender l => inferInstanceAs (Decidable ((retryLts cfg maxRetries).guard l s.sender))
  | .register _ => isTrue trivial
  | .deliver t => inferInstanceAs (Decidable (t ∈ s.sender.closed ∧ t.wire.isSome = true))

/-- A call of `SendWithRetry` by itself, as number `j`. -/
def sendLabels (j : ℕ) (seqNum : UInt16) : List LossyLabel :=
  [LossyLabel.sender (.begin [42] (.make 1 seqNum)), .sender (.add j 0), .sender (.send j 0),
    .sender (.finish j)]

/-- The first transmission of message `j`. -/
def first (j : ℕ) (seqNum : UInt16) : Transmission := ⟨.send j, j, some ⟨.make 1 seqNum, [42]⟩⟩

/-- A frame arrives once more behind two others; the filter remembers two. -/
def repeatRun : List LossyLabel :=
  [LossyLabel.register 1] ++ sendLabels 0 0 ++ sendLabels 1 1 ++ sendLabels 2 2 ++
  [LossyLabel.deliver (first 0 0), .deliver (first 0 0), .deliver (first 1 1),
    .deliver (first 2 2), .deliver (first 0 0)]

/-- With the default window of eight frames: message 0 is executed, eight other
messages follow, and its retransmission arrives behind them. -/
def lateRetryRun : List LossyLabel :=
  [LossyLabel.register 1] ++
  (List.range 9).flatMap (fun i => sendLabels i (UInt16.ofNat i)) ++
  [LossyLabel.sender (.monitor .process), .sender (.monitor (.pass 0 2500)), .sender (.emit 0),
    .sender (.handle 0), .sender (.readd 0 2500), .sender (.resend 0)] ++
  (List.range 9).map (fun i => .deliver (first i (UInt16.ofNat i))) ++
  [LossyLabel.deliver ⟨.callback 0, 0, some ⟨.make 1 0, [42]⟩⟩]

end LossySys

end AsyncSqlite
