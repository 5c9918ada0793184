import AsyncSqlite.Data.Cells
import AsyncSqlite.Delegate.LiveSignal
import AsyncSqlite.Remote.Delegate

/-!
# AsyncSqlite.Databus.ParticipantTable — the participants and their error connections

The table of participants of `DataBus`: two arrays, of participants and of the
connections to their error signals, that are filled and shifted together.

* A critical section is one step. `AddParticipant` connects before it takes the lock, so
  it has two steps, and anything may come between them (`addParticipant`, `addLocked`).
* An error is reported through the snapshot of `m_errorSignal`, one delegate a step.
* The participants live as long as somebody has a pointer to them: a slot, a call of
  `AddParticipant`, or somebody outside (`held`).
* The state block of the error signal of participant `p` has the number `p`.
-/

namespace AsyncSqlite

universe u

/-- Whom a clone in an error signal calls. -/
inductive ErrorTarget
  /-- `DataBus::InternalReportLatchedError` -/
  | bus
  | other (callback : ℕ)
deriving DecidableEq

/-- `m_reportedErrors` and `m_continuousErrors`, of a participant and of the bus. -/
structure ErrorLatch (Topic : Type u) where
  reportedErrors : List (Topic × DelegateError)
  continuousErrors : Bool

/-- `shouldFire`, and the latch afterwards. -/
def ErrorLatch.report {Topic : Type u} [DecidableEq Topic] (l : ErrorLatch Topic) (topic : Topic)
    (error : DelegateError) : Bool × ErrorLatch Topic :=
  if (topic, error) ∈ l.reportedErrors then (l.continuousErrors, l)
  else (true, { l with reportedErrors := (topic, error) :: l.reportedErrors })

/-- A call of `AddParticipant` that has connected, and has not taken the lock yet. -/
structure Addition where
  participant : ℕ
  conn : Connection
deriving DecidableEq

/-- A call of `m_errorSignal` of a participant, behind its snapshot. -/
structure Emission (Topic : Type u) where
  participant : ℕ
  topic : Topic
  error : DelegateError
  fire : Fire
  /-- the calls of `InternalReportLatchedError` so far -/
  reports : ℕ
  /-- the slots of the participant when the snapshot was taken -/
  registered : ℕ
  /-- the calls of `AddParticipant` for it that were between their two steps -/
  adding : ℕ

structure ParticipantTable (Topic : Type u) where
  /-- `m_participants` -/
  participants : ℕ → Option ℕ
  /-- `m_participantErrorConnections` -/
  errorConnections : ℕ → Connection
  /-- `m_participantCount` -/
  count : ℕ
  /-- the latch of the bus -/
  latch : ErrorLatch Topic
  /-- what `m_errorSignal` of the bus has been called with -/
  errors : List (Topic × DelegateError)
  /-- the latches of the participants -/
  latches : ℕ → ErrorLatch Topic
  /-- `m_errorSignal` of each participant -/
  signals : ℕ → SignalState
  /-- the clones that `Connect` has made, for all error signals -/
  targets : List ErrorTarget
  /-- somebody outside of the table has a pointer to the participant -/
  held : ℕ → Bool
  adding : List Addition
  /-- the connections that `SubscribeError` has returned to somebody else -/
  others : List Connection
  emissions : List (Emission Topic)
  /-- an `ASSERT` has ended the program -/
  ended : Bool

inductive TableLabel (Topic : Type u)
  | addParticipant (participant : ℕ)
  | addLocked (a : Addition)
  | removeParticipant (participant : Option ℕ)
  | resetForTesting
  | enableContinuousErrors (enable : Bool)
  | subscribeError (participant callback : ℕ)
  /-- the connection of somebody else is destroyed -/
  | disconnect (conn : Connection)
  /-- a pointer is copied from a slot, as `InternalPublish` does -/
  | share (participant : ℕ)
  /-- the last pointer from outside goes -/
  | drop (participant : ℕ)
  /-- `OnChannelError`, with the topic that it finds for the remote id -/
  | channelError (participant : ℕ) (topic : Topic) (error : DelegateError)
  /-- the next delegate of an emission -/
  | next (i : ℕ)

namespace ParticipantTable

variable {Topic : Type u}

def initial : ParticipantTable Topic where
  participants := fun _ => none
  errorConnections := fun _ => .empty
  count := 0
  latch := ⟨[], false⟩
  errors := []
  latches := fun _ => ⟨[], false⟩
  signals := fun _ => ⟨true, []⟩
  targets := []
  held := fun _ => true
  adding := []
  others := []
  emissions := []
  ended := false

/-! ## Signals and connections -/

/-- `Signal::DisconnectImpl` -/
def disconnectImpl (s : ParticipantTable Topic) (p copy : ℕ) : ParticipantTable Topic :=
  if (s.signals p).alive then
    { s with
      signals := Function.update s.signals p
        { s.signals p with delegates := (s.signals p).delegates.filter (· ≠ copy) } }
  else s

/-- `Connection::Disconnect`: what it does to the signal. -/
def disconnect (s : ParticipantTable Topic) (c : Connection) : ParticipantTable Topic :=
  if c.connected then
    match c.disconnectFn, c.ctx1, c.ctx2 with
    | true, some p, some copy => s.disconnectImpl p copy
    | _, _, _ => s
  else s

/-- `SubscribeError` connects; this is the connection that it returns. -/
def connection (s : ParticipantTable Topic) (p : ℕ) : Connection :=
  ⟨some p, some s.targets.length, true, true⟩

/-- `SubscribeError` -/
def subscribeError (s : ParticipantTable Topic) (p : ℕ) (target : ErrorTarget) :
    ParticipantTable Topic :=
  { s with
    signals := Function.update s.signals p
      { s.signals p with delegates := (s.signals p).delegates ++ [s.targets.length] }
    targets := s.targets ++ [target] }

/-- `m_participantErrorConnections[i].Disconnect()` -/
def disconnectSlot (s : ParticipantTable Topic) (i : ℕ) : ParticipantTable Topic :=
  if (s.errorConnections i).connected then
    { s.disconnect (s.errorConnections i) with
      errorConnections := Function.update s.errorConnections i .empty }
  else s

/-- `m_participantErrorConnections[i] = std::move(c)`. Both the handle and the connection
in it disconnect what was there. -/
def assignSlot (s : ParticipantTable Topic) (i : ℕ) (c : Connection) : ParticipantTable Topic :=
  let s' := (s.disconnectSlot i).disconnectSlot i
  { s' with errorConnections := Function.update s'.errorConnections i c }

/-! ## The lifetime of the participants -/

/-- Somebody has a pointer to the participant. -/
def referenced (s : ParticipantTable Topic) (p : ℕ) : Bool :=
  s.held p || (List.range s.count).any (fun i => s.participants i = some p) ||
    s.adding.any (·.participant = p)

/-- A pointer to the participant has gone: `~Participant`, and with it `~Signal`, if it
was the last one. -/
def release (s : ParticipantTable Topic) (p : ℕ) : ParticipantTable Topic :=
  if s.referenced p then s
  else { s with signals := Function.update s.signals p ⟨false, []⟩ }

/-! ## The operations -/

/-- `InternalAddParticipant` up to the lock -/
def addParticipant (s : ParticipantTable Topic) (p : ℕ) : ParticipantTable Topic :=
  { s.subscribeError p .bus with adding := s.adding ++ [⟨p, s.connection p⟩] }

/-- `InternalAddParticipant` from the lock on -/
def addLocked (maxParticipants : ℕ) (s : ParticipantTable Topic) (a : Addition) :
    ParticipantTable Topic :=
  if s.count < maxParticipants then
    let s' := s.assignSlot s.count a.conn
    { s' with
      latches := Function.update s.latches a.participant
        { s.latches a.participant with continuousErrors := s.latch.continuousErrors }
      participants := Function.update s.participants s.count (some a.participant)
      count := s.count + 1
      adding := s.adding.erase a }
  else { s with ended := true }

/-- One round of the inner loop of `InternalRemoveParticipant` -/
def moveDown (s : ParticipantTable Topic) (j : ℕ) : ParticipantTable Topic :=
  let s' := s.assignSlot j (s.errorConnections (j + 1))
  { s' with
    participants := moveCell none j s.participants
    errorConnections := Function.update s'.errorConnections (j + 1) .empty }

/-- The inner loop, with the number of rounds left. -/
def moveDownFrom : ℕ → ℕ → ParticipantTable Topic → ParticipantTable Topic
  | 0, _, s => s
  | k + 1, j, s => moveDownFrom k (j + 1) (s.moveDown j)

/-- The outer loop breaks in the first slot that has the participant. -/
def findSlot (s : ParticipantTable Topic) (participant : Option ℕ) : Option ℕ :=
  (List.range s.count).find? fun i => s.participants i = participant

/-- `InternalRemoveParticipant` -/
def removeParticipant (s : ParticipantTable Topic) (participant : Option ℕ) :
    ParticipantTable Topic :=
  match s.findSlot participant with
  | none => s
  | some i =>
    let s' := moveDownFrom (s.count - 1 - i) i (s.disconnectSlot i)
    { s' with
      count := s.count - 1
      participants := Function.update s'.participants (s.count - 1) none }

/-- One round of the loop of `InternalReset` -/
def resetSlot (s : ParticipantTable Topic) (i : ℕ) : ParticipantTable Topic :=
  match s.participants i with
  | none => s.disconnectSlot i
  | some p =>
    let s' : ParticipantTable Topic :=
      { s with
        -- `ResetErrors`
        latches := Function.update s.latches p { s.latches p with reportedErrors := [] }
        participants := Function.update s.participants i none }
    (s'.release p).disconnectSlot i

/-- The loop, with the number of rounds left. -/
def resetSlots : ℕ → ℕ → ParticipantTable Topic → ParticipantTable Topic
  | 0, _, s => s
  | k + 1, i, s => resetSlots k (i + 1) (s.resetSlot i)

/-- `InternalReset` -/
def internalReset (s : ParticipantTable Topic) : ParticipantTable Topic :=
  let s' := resetSlots s.count 0 s
  { s' with count := 0, latch := { s'.latch with reportedErrors := [] } }

/-- The loop of `InternalEnableContinuousErrors` -/
def enableSlots (enable : Bool) (s : ParticipantTable Topic) : ParticipantTable Topic :=
  { s with
    latches := fun p =>
      if (List.range s.count).any fun i => s.participants i = some p then
        { s.latches p with continuousErrors := enable }
      else s.latches p }

/-- `InternalEnableContinuousErrors` -/
def internalEnableContinuousErrors (enable : Bool) (s : ParticipantTable Topic) :
    ParticipantTable Topic :=
  enableSlots enable { s with latch := { s.latch with continuousErrors := enable } }

/-! ## Errors -/

/-- The clone calls the bus. -/
def callsBus (targets : List ErrorTarget) (copy : ℕ) : Bool := targets[copy]? = some .bus

/-- The slots that have the participant. -/
def registrations (s : ParticipantTable Topic) (p : ℕ) : ℕ :=
  (List.range s.count).countP fun i => s.participants i = some p

/-- The calls of `AddParticipant` for the participant that have not taken the lock yet. -/
def additions (s : ParticipantTable Topic) (p : ℕ) : ℕ := s.adding.countP (·.participant = p)

/-- How often an error of the participant would reach the bus. -/
def busSubscriptions (s : ParticipantTable Topic) (p : ℕ) : ℕ :=
  (s.signals p).delegates.countP (callsBus s.targets)

variable [DecidableEq Topic]

/-- `Participant::OnChannelError`, up to the snapshot of its signal. `sbo` is
`SIGNAL_SBO_COUNT`. -/
def onChannelError (sbo : ℕ) (s : ParticipantTable Topic) (p : ℕ) (topic : Topic)
    (error : DelegateError) : ParticipantTable Topic :=
  if error = .success then s
  else
    let r := (s.latches p).report topic error
    let s' := { s with latches := Function.update s.latches p r.2 }
    if r.1 then
      { s' with
        emissions := s.emissions ++
          [{ participant := p
             topic := topic
             error := error
             fire := ⟨Snapshot.take sbo (s.signals p).delegates, 0, []⟩
             reports := 0
             registered := s.registrations p
             adding := s.additions p }] }
    else s'

/-- `InternalReportLatchedError` -/
def internalReportLatchedError (s : ParticipantTable Topic) (topic : Topic)
    (error : DelegateError) : ParticipantTable Topic :=
  let r := s.latch.report topic error
  { s with
    latch := r.2
    errors := if r.1 then s.errors ++ [(topic, error)] else s.errors }

/-- The delegate that the emission calls next calls the bus. -/
def reportsNext (sbo : ℕ) (s : ParticipantTable Topic) (e : Emission Topic) : Bool :=
  (e.fire.snapshot.slot sbo e.fire.round).any (callsBus s.targets)

/-- One round of `InvokeSnapshot` for the emission `i` -/
def next (sbo : ℕ) (s : ParticipantTable Topic) (i : ℕ) : ParticipantTable Topic :=
  match s.emissions[i]? with
  | none => s
  | some e =>
    let s' := if s.reportsNext sbo e then s.internalReportLatchedError e.topic e.error else s
    { s' with
      emissions := s.emissions.modify i fun e =>
        { e with fire := e.fire.next sbo, reports := e.reports + (s.reportsNext sbo e).toNat } }

/-! ## The transition system -/

/-- A participant is added and removed through a pointer to it; an error is one of a
participant that exists. -/
def guard (sbo : ℕ) : TableLabel Topic → ParticipantTable Topic → Prop
  | .addParticipant p, s => s.ended = false ∧ s.held p = true
  | .addLocked a, s => s.ended = false ∧ a ∈ s.adding
  | .removeParticipant p, s => s.ended = false ∧ p.all s.held = true
  | .resetForTesting, s => s.ended = false
  | .enableContinuousErrors _, s => s.ended = false
  | .subscribeError p _, s => s.ended = false ∧ s.held p = true
  | .disconnect c, s => s.ended = false ∧ c ∈ s.others
  | .share p, s => s.ended = false ∧ s.referenced p = true
  | .drop p, s => s.ended = false ∧ s.held p = true
  | .channelError p _ _, s => s.ended = false ∧ (s.signals p).alive = true
  | .next i, s => s.ended = false ∧ ∃ e ∈ s.emissions[i]?, ¬ e.fire.finished sbo

def update (maxParticipants sbo : ℕ) :
    TableLabel Topic → ParticipantTable Topic → ParticipantTable Topic
  | .addParticipant p, s => s.addParticipant p
  | .addLocked a, s => s.addLocked maxParticipants a
  | .removeParticipant p, s => s.removeParticipant p
  | .resetForTesting, s => s.internalReset
  | .enableContinuousErrors enable, s => s.internalEnableContinuousErrors enable
  | .subscribeError p callback, s =>
    { s.subscribeError p (.other callback) with others := s.others ++ [s.connection p] }
  | .disconnect c, s => { s.disconnect c with others := s.others.erase c }
  | .share p, s => { s with held := Function.update s.held p true }
  | .drop p, s => ({ s with held := Function.update s.held p false }).release p
  | .channelError p topic error, s => s.onChannelError sbo p topic error
  | .next i, s => s.next sbo i

instance (sbo : ℕ) :
    ∀ (l : TableLabel Topic) (s : ParticipantTable Topic), Decidable (guard sbo l s)
  | .addParticipant p, s | .subscribeError p _, s | .drop p, s =>
    inferInstanceAs (Decidable (s.ended = false ∧ s.held p = true))
  | .share p, s => inferInstanceAs (Decidable (s.ended = false ∧ s.referenced p = true))
  | .addLocked a, s => inferInstanceAs (Decidable (s.ended = false ∧ a ∈ s.adding))
  | .removeParticipant p, s => inferInstanceAs (Decidable (s.ended = false ∧ p.all s.held = true))
  | .resetForTesting, s | .enableContinuousErrors _, s =>
    inferInstanceAs (Decidable (s.ended = false))
  | .disconnect c, s => inferInstanceAs (Decidable (s.ended = false ∧ c ∈ s.others))
  | .channelError p _ _, s =>
    inferInstanceAs (Decidable (s.ended = false ∧ (s.signals p).alive = true))
  | .next i, s =>
    inferInstanceAs (Decidable (s.ended = false ∧ ∃ e ∈ s.emissions[i]?, ¬ e.fire.finished sbo))

end ParticipantTable

def participantLts (Topic : Type u) [DecidableEq Topic] (maxParticipants sbo : ℕ) :
    Lts (ParticipantTable Topic) (TableLabel Topic) where
  init := fun s => s = ParticipantTable.initial
  guard := ParticipantTable.guard sbo
  update := ParticipantTable.update maxParticipants sbo

instance {Topic : Type u} [DecidableEq Topic] (maxParticipants sbo : ℕ) (l : TableLabel Topic)
    (s : ParticipantTable Topic) :
    Decidable ((participantLts Topic maxParticipants sbo).guard l s) :=
  inferInstanceAs (Decidable (ParticipantTable.guard sbo l s))

end AsyncSqlite
