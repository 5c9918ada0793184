import Mathlib.Data.List.Induction
import Mathlib.Data.List.Nodup
import Mathlib.Data.List.Perm.Basic
import Mathlib.Logic.Function.Basic
import AsyncSqlite.Databus.Types
import AsyncSqlite.Remote.Monitor

/-!
# AsyncSqlite.Databus.NetworkNode — registrations that are replayed

`NetworkNode` of `extras/databus/NetworkNode.h`: `Send` and `Receive` apply a
registration to what exists and keep it in a table; `AddPeer` and `Start` replay
the tables to what they create. Transport creation succeeds here, and a failed
assertion is `none`.

`run_configured` gives the configuration after any list of calls in closed form.
The topic maps and the inbound handlers are folds over the tables, and do not
depend on the order of the calls. The send thread of a peer does: `AddPeer` sets
it if `Start` has created it, and nothing sets it later
(`same_configuration_iff`).
-/

namespace AsyncSqlite

universe u v w x

/-! ## The code -/

inductive Reliability
  | unreliable
  | reliable
deriving DecidableEq, Repr

/-- The sending side of a `Participant`. -/
structure PeerParticipant (Topic : Type u) (Name : Type x) where
  topicToRemoteId : Topic → Option DelegateRemoteId
  sendThread : Option Name

/-- A channel of the receiving side: its type and serializer, and the topic that
its handler publishes. -/
structure InboundChannel (Topic : Type u) (Ty : Type v) where
  type : Ty
  serializer : ℕ
  topic : Topic
deriving DecidableEq

structure IncomingTopic (Topic : Type u) (Ty : Type v) where
  topic : Topic
  remoteId : DelegateRemoteId
  /-- the type argument that `adder` was made with -/
  type : Ty
  serializer : ℕ
deriving DecidableEq

structure OutgoingTopic (Topic : Type u) where
  topic : Topic
  remoteId : DelegateRemoteId
  reliability : Reliability
deriving DecidableEq

/-- A peer; `addr` is its name, address and port. -/
structure RemoteNode (Topic : Type u) (Name Addr : Type x) where
  addr : Addr
  reliableParticipant : PeerParticipant Topic Name
  unreliableParticipant : PeerParticipant Topic Name
  active : Bool

structure NetworkNode (Topic : Type u) (Ty : Type v) (V : Type w) (Name Addr : Type x) where
  /-- the bus, of which there is one in a process -/
  bus : DataBus Topic Ty V
  running : Bool
  thread : Option Name
  /-- the channels of `m_recvParticipant`, once there is one -/
  recvParticipant : Option (DelegateRemoteId → Option (InboundChannel Topic Ty))
  /-- the occupied part of `m_peers` -/
  peers : List (RemoteNode Topic Name Addr)
  inTopics : List (IncomingTopic Topic Ty)
  outTopics : List (OutgoingTopic Topic)

/-- `MaxPeers`, `MaxTopics` and `MAX_PARTICIPANTS`. -/
structure Capacities where
  maxPeers : ℕ
  maxTopics : ℕ
  maxParticipants : ℕ

section Code

variable {Topic : Type u} {Ty : Type v} {V : Type w} {Name Addr : Type x}
variable [DecidableEq Topic] [DecidableEq Ty]

/-- `AddRemoteTopic` -/
def PeerParticipant.addRemoteTopic (p : PeerParticipant Topic Name) (topic : Topic)
    (remoteId : DelegateRemoteId) : PeerParticipant Topic Name :=
  { p with topicToRemoteId := Function.update p.topicToRemoteId topic (some remoteId) }

/-- An outgoing topic goes to the participant of its tier. -/
def RemoteNode.apply (node : RemoteNode Topic Name Addr) (out : OutgoingTopic Topic) :
    RemoteNode Topic Name Addr :=
  if out.reliability = .reliable then
    { node with
      reliableParticipant := node.reliableParticipant.addRemoteTopic out.topic out.remoteId }
  else
    { node with
      unreliableParticipant := node.unreliableParticipant.addRemoteTopic out.topic out.remoteId }

/-- `AddIncomingTopic`, which is `RegisterHandler`: a channel that exists keeps
its serializer. -/
def addIncomingTopic (channels : DelegateRemoteId → Option (InboundChannel Topic Ty))
    (t : IncomingTopic Topic Ty) : Option (DelegateRemoteId → Option (InboundChannel Topic Ty)) :=
  match channels t.remoteId with
  | some c =>
    if c.type = t.type then
      some (Function.update channels t.remoteId (some { c with topic := t.topic }))
    else none
  | none =>
    some (Function.update channels t.remoteId (some ⟨t.type, t.serializer, t.topic⟩))

namespace NetworkNode

def initial (bus : DataBus Topic Ty V) : NetworkNode Topic Ty V Name Addr :=
  ⟨bus, false, none, none, [], [], []⟩

/-- `Start` -/
def start (node : NetworkNode Topic Ty V Name Addr) (name : Name) :
    Option (NetworkNode Topic Ty V Name Addr) :=
  if node.running then some node
  else
    match node.inTopics.foldlM addIncomingTopic fun _ => none with
    | none => none
    | some channels =>
      some { node with recvParticipant := some channels, thread := some name, running := true }

/-- `AddPeer`; the participants of peer `n` are numbered `2 * n` and `2 * n + 1`. -/
def addPeer (k : Capacities) (node : NetworkNode Topic Ty V Name Addr) (addr : Addr) :
    Option (NetworkNode Topic Ty V Name Addr) :=
  if node.peers.length < k.maxPeers then
    let participant : PeerParticipant Topic Name := ⟨fun _ => none, node.thread⟩
    let bus := (node.bus.internalAddParticipant k.maxParticipants (2 * node.peers.length)).bind
      (·.internalAddParticipant k.maxParticipants (2 * node.peers.length + 1))
    match bus with
    | none => none
    | some bus =>
      let peer := node.outTopics.foldl RemoteNode.apply ⟨addr, participant, participant, false⟩
      some { node with bus := bus, peers := node.peers ++ [{ peer with active := true }] }
  else none

/-- `Send<T>` -/
def send (k : Capacities) (node : NetworkNode Topic Ty V Name Addr) (out : OutgoingTopic Topic)
    (T : Ty) (serializer : ℕ) : Option (NetworkNode Topic Ty V Name Addr) :=
  if node.outTopics.length < k.maxTopics then
    let r := node.bus.internalRegisterSerializer out.topic T serializer
    if r.2 then
      some { node with
        bus := r.1
        outTopics := node.outTopics ++ [out]
        peers := node.peers.map fun peer => if peer.active then peer.apply out else peer }
    else none
  else none

/-- `Receive<T>` -/
def receive (k : Capacities) (node : NetworkNode Topic Ty V Name Addr)
    (t : IncomingTopic Topic Ty) : Option (NetworkNode Topic Ty V Name Addr) :=
  if node.inTopics.length < k.maxTopics then
    let node' := { node with inTopics := node.inTopics ++ [t] }
    match node.recvParticipant with
    | none => some node'
    | some channels =>
      (addIncomingTopic channels t).map fun channels =>
        { node' with recvParticipant := some channels }
  else none

end NetworkNode

end Code

/-- A call of one of the four members. -/
inductive NodeCall (Topic : Type u) (Ty : Type v) (Name Addr : Type x)
  | start (name : Name)
  | addPeer (addr : Addr)
  | send (out : OutgoingTopic Topic) (T : Ty) (serializer : ℕ)
  | receive (t : IncomingTopic Topic Ty)
deriving DecidableEq

namespace NetworkNode

variable {Topic : Type u} {Ty : Type v} {V : Type w} {Name Addr : Type x}
variable [DecidableEq Topic] [DecidableEq Ty] {k : Capacities}

def step (k : Capacities) (node : NetworkNode Topic Ty V Name Addr) :
    NodeCall Topic Ty Name Addr → Option (NetworkNode Topic Ty V Name Addr)
  | .start name => node.start name
  | .addPeer addr => node.addPeer k addr
  | .send out T serializer => node.send k out T serializer
  | .receive t => node.receive k t

/-- The calls in order, up to a failed assertion. -/
def run (k : Capacities) (calls : List (NodeCall Topic Ty Name Addr))
    (node : NetworkNode Topic Ty V Name Addr) : Option (NetworkNode Topic Ty V Name Addr) :=
  calls.foldlM (step k) node

end NetworkNode

/-! ## What a list of calls registers -/

namespace NodeCall

variable {Topic : Type u} {Ty : Type v} {Name Addr : Type x}

def name? : NodeCall Topic Ty Name Addr → Option Name
  | .start name => some name
  | _ => none

def addr? : NodeCall Topic Ty Name Addr → Option Addr
  | .addPeer addr => some addr
  | _ => none

def outgoing? : NodeCall Topic Ty Name Addr → Option (OutgoingTopic Topic)
  | .send out _ _ => some out
  | _ => none

def incoming? : NodeCall Topic Ty Name Addr → Option (IncomingTopic Topic Ty)
  | .receive t => some t
  | _ => none

end NodeCall

namespace NetworkNode

variable {Topic : Type u} {Ty : Type v} {V : Type w} {Name Addr : Type x}
variable {calls calls' : List (NodeCall Topic Ty Name Addr)}

abbrev addrs (calls : List (NodeCall Topic Ty Name Addr)) : List Addr :=
  calls.filterMap NodeCall.addr?

abbrev outs (calls : List (NodeCall Topic Ty Name Addr)) : List (OutgoingTopic Topic) :=
  calls.filterMap NodeCall.outgoing?

abbrev ins (calls : List (NodeCall Topic Ty Name Addr)) : List (IncomingTopic Topic Ty) :=
  calls.filterMap NodeCall.incoming?

/-- The name of the receive thread, once there is one. -/
abbrev threadName (calls : List (NodeCall Topic Ty Name Addr)) : Option Name :=
  calls.findSome? NodeCall.name?

theorem addrs_concat (calls : List (NodeCall Topic Ty Name Addr))
    (c : NodeCall Topic Ty Name Addr) : addrs (calls ++ [c]) = addrs calls ++ c.addr?.toList := by
  cases h : c.addr? <;> simp [addrs, h]

theorem outs_concat (calls : List (NodeCall Topic Ty Name Addr))
    (c : NodeCall Topic Ty Name Addr) :
    outs (calls ++ [c]) = outs calls ++ c.outgoing?.toList := by
  cases h : c.outgoing? <;> simp [outs, h]

theorem ins_concat (calls : List (NodeCall Topic Ty Name Addr))
    (c : NodeCall Topic Ty Name Addr) : ins (calls ++ [c]) = ins calls ++ c.incoming?.toList := by
  cases h : c.incoming? <;> simp [ins, h]

theorem threadName_concat (calls : List (NodeCall Topic Ty Name Addr))
    (c : NodeCall Topic Ty Name Addr) :
    threadName (calls ++ [c]) = (threadName calls).or c.name? := by
  unfold threadName
  rw [List.findSome?_append]
  cases h : c.name? <;> simp [h]

/-- How many `AddPeer` calls come before `Start`. -/
def peersBeforeStart : List (NodeCall Topic Ty Name Addr) → ℕ
  | [] => 0
  | .start _ :: _ => 0
  | .addPeer _ :: calls => peersBeforeStart calls + 1
  | .send _ _ _ :: calls => peersBeforeStart calls
  | .receive _ :: calls => peersBeforeStart calls

/-- The send threads of the peers: those from before `Start` have none. -/
def threads (calls : List (NodeCall Topic Ty Name Addr)) : List (Option Name) :=
  List.replicate (peersBeforeStart calls) none ++
    List.replicate ((addrs calls).length - peersBeforeStart calls) (threadName calls)

theorem peersBeforeStart_le (calls : List (NodeCall Topic Ty Name Addr)) :
    peersBeforeStart calls ≤ (addrs calls).length := by
  induction calls with
  | nil => exact Nat.le_refl 0
  | cons c calls ih =>
    cases c with
    | start name => exact Nat.zero_le _
    | addPeer addr => exact Nat.succ_le_succ ih
    | send out T serializer => exact ih
    | receive t => exact ih

theorem length_threads (calls : List (NodeCall Topic Ty Name Addr)) :
    (threads calls).length = (addrs calls).length := by
  have hle := peersBeforeStart_le calls
  simp only [threads, List.length_append, List.length_replicate]
  omega

/-- Behind `Start` the count stands still. -/
theorem peersBeforeStart_concat (calls : List (NodeCall Topic Ty Name Addr))
    (c : NodeCall Topic Ty Name Addr) : peersBeforeStart (calls ++ [c]) =
      if (threadName calls).isSome then peersBeforeStart calls
      else peersBeforeStart calls + (addrs [c]).length := by
  induction calls with
  | nil => cases c <;> rfl
  | cons d calls ih =>
    cases d with
    | start name => simp [peersBeforeStart, threadName, NodeCall.name?]
    | addPeer addr =>
      have hname : threadName (.addPeer addr :: calls) = threadName calls := rfl
      simp only [List.cons_append, peersBeforeStart, ih, hname]
      split <;> omega
    | send out T serializer => simpa [peersBeforeStart, threadName, NodeCall.name?] using ih
    | receive t => simpa [peersBeforeStart, threadName, NodeCall.name?] using ih

/-- Before `Start` every peer has been added before `Start`. -/
theorem peersBeforeStart_of_not_started (h : threadName calls = none) :
    peersBeforeStart calls = (addrs calls).length := by
  induction calls with
  | nil => rfl
  | cons c calls ih =>
    cases c with
    | start name => simp [threadName, NodeCall.name?] at h
    | addPeer addr => exact congrArg Nat.succ (ih h)
    | send out T serializer => exact ih h
    | receive t => exact ih h

theorem threads_addPeer (calls : List (NodeCall Topic Ty Name Addr)) (addr : Addr) :
    threads (calls ++ [.addPeer addr]) = threads calls ++ [threadName calls] := by
  have hle := peersBeforeStart_le calls
  have hconcat := peersBeforeStart_concat calls (.addPeer addr)
  have hlen : (addrs (calls ++ [.addPeer addr])).length = (addrs calls).length + 1 := by
    simp [addrs, NodeCall.addr?]
  have hname : threadName (calls ++ [.addPeer addr]) = threadName calls := by
    simp [threadName, NodeCall.name?]
  unfold threads
  rw [hlen, hname, hconcat]
  cases h : threadName calls with
  | some name =>
    have hsub : (addrs calls).length + 1 - peersBeforeStart calls =
        (addrs calls).length - peersBeforeStart calls + 1 := by omega
    rw [if_pos (by rfl), hsub, List.replicate_succ', List.append_assoc]
  | none =>
    have hall := peersBeforeStart_of_not_started h
    have hone : (addrs [(.addPeer addr : NodeCall Topic Ty Name Addr)]).length = 1 := rfl
    rw [if_neg (by simp), hone, hall]
    simp [List.replicate_succ']

/-- `Start` comes too late for the peers that are there. -/
theorem threads_start (calls : List (NodeCall Topic Ty Name Addr)) (name : Name) :
    threads (calls ++ [.start name]) = threads calls := by
  have hlen : (addrs (calls ++ [.start name])).length = (addrs calls).length := by
    simp [addrs, NodeCall.addr?]
  have hconcat : peersBeforeStart (calls ++ [.start name]) = peersBeforeStart calls := by
    rw [peersBeforeStart_concat]
    split <;> simp [addrs, NodeCall.addr?]
  unfold threads
  rw [hlen, hconcat]
  cases h : threadName calls with
  | some name' => simp [h]
  | none =>
    rw [peersBeforeStart_of_not_started h]
    simp

theorem threads_other {c : NodeCall Topic Ty Name Addr} (ha : c.addr? = none)
    (hn : c.name? = none) : threads (calls ++ [c]) = threads calls := by
  have hlen : (addrs (calls ++ [c])).length = (addrs calls).length := by simp [addrs, ha]
  have hname : threadName (calls ++ [c]) = threadName calls := by simp [threadName, hn]
  have hconcat : peersBeforeStart (calls ++ [c]) = peersBeforeStart calls := by
    rw [peersBeforeStart_concat]
    split <;> simp [addrs, ha]
  unfold threads
  rw [hlen, hname, hconcat]

/-- What the configuration depends on. -/
structure Registered (Topic : Type u) (Ty : Type v) (Name Addr : Type x) where
  outs : List (OutgoingTopic Topic)
  ins : List (IncomingTopic Topic Ty)
  name : Option Name
  addrs : List Addr
  threads : List (Option Name)

def registered (calls : List (NodeCall Topic Ty Name Addr)) : Registered Topic Ty Name Addr :=
  ⟨outs calls, ins calls, threadName calls, addrs calls, threads calls⟩

theorem registered_restart {name name' : Name} (h : threadName calls = some name') :
    registered (calls ++ [.start name]) = registered calls := by
  unfold registered
  rw [outs_concat, ins_concat, threadName_concat, addrs_concat, threads_start, h]
  simp [NodeCall.outgoing?, NodeCall.incoming?, NodeCall.addr?]

theorem registered_start {name : Name} (h : threadName calls = none) :
    registered (calls ++ [.start name]) = { registered calls with name := some name } := by
  unfold registered
  rw [outs_concat, ins_concat, threadName_concat, addrs_concat, threads_start, h]
  simp [NodeCall.outgoing?, NodeCall.incoming?, NodeCall.addr?, NodeCall.name?]

theorem registered_addPeer (calls : List (NodeCall Topic Ty Name Addr)) (addr : Addr) :
    registered (calls ++ [.addPeer addr]) = { registered calls with
      addrs := addrs calls ++ [addr]
      threads := threads calls ++ [threadName calls] } := by
  unfold registered
  rw [outs_concat, ins_concat, threadName_concat, addrs_concat, threads_addPeer]
  simp [NodeCall.outgoing?, NodeCall.incoming?, NodeCall.addr?, NodeCall.name?]

theorem registered_send (calls : List (NodeCall Topic Ty Name Addr)) (out : OutgoingTopic Topic)
    (T : Ty) (serializer : ℕ) : registered (calls ++ [.send out T serializer]) =
      { registered calls with outs := outs calls ++ [out] } := by
  unfold registered
  rw [outs_concat, ins_concat, threadName_concat, addrs_concat, threads_other rfl rfl]
  simp [NodeCall.outgoing?, NodeCall.incoming?, NodeCall.addr?, NodeCall.name?]

theorem registered_receive (calls : List (NodeCall Topic Ty Name Addr))
    (t : IncomingTopic Topic Ty) : registered (calls ++ [.receive t]) =
      { registered calls with ins := ins calls ++ [t] } := by
  unfold registered
  rw [outs_concat, ins_concat, threadName_concat, addrs_concat, threads_other rfl rfl]
  simp [NodeCall.outgoing?, NodeCall.incoming?, NodeCall.addr?, NodeCall.name?]

/-! ## Replaying the tables -/

variable [DecidableEq Topic] [DecidableEq Ty]

/-- The topic map of a tier. -/
def remoteTopics (rel : Reliability) (outs : List (OutgoingTopic Topic)) :
    Topic → Option DelegateRemoteId :=
  outs.foldl (fun map out =>
    if out.reliability = rel then Function.update map out.topic (some out.remoteId) else map)
    fun _ => none

def bindChannel (channels : DelegateRemoteId → Option (InboundChannel Topic Ty))
    (t : IncomingTopic Topic Ty) : DelegateRemoteId → Option (InboundChannel Topic Ty) :=
  Function.update channels t.remoteId (some ⟨t.type, t.serializer, t.topic⟩)

/-- The handlers of the receiving side. -/
def inbound (ins : List (IncomingTopic Topic Ty)) :
    DelegateRemoteId → Option (InboundChannel Topic Ty) :=
  ins.foldl bindChannel fun _ => none

/-- A peer with all outgoing topics applied. -/
def peer (outs : List (OutgoingTopic Topic)) (addr : Addr) (thread : Option Name) :
    RemoteNode Topic Name Addr where
  addr := addr
  reliableParticipant := ⟨remoteTopics .reliable outs, thread⟩
  unreliableParticipant := ⟨remoteTopics .unreliable outs, thread⟩
  active := true

omit [DecidableEq Ty] in
theorem peer_concat (outs : List (OutgoingTopic Topic)) (out : OutgoingTopic Topic) (addr : Addr)
    (thread : Option Name) :
    peer (outs ++ [out]) addr thread = (peer outs addr thread).apply out := by
  unfold peer remoteTopics RemoteNode.apply PeerParticipant.addRemoteTopic
  rw [List.foldl_append, List.foldl_append]
  cases h : out.reliability <;> simp [h]

omit [DecidableEq Ty] in
theorem map_apply (outs : List (OutgoingTopic Topic)) (out : OutgoingTopic Topic)
    (addrs : List Addr) (threads : List (Option Name)) :
    (List.zipWith (peer outs) addrs threads).map
        (fun peer => if peer.active then peer.apply out else peer) =
      List.zipWith (peer (outs ++ [out])) addrs threads := by
  rw [List.map_zipWith]
  congr 1
  funext addr thread
  exact (peer_concat outs out addr thread).symm

omit [DecidableEq Ty] in
/-- What `AddPeer` replays is what `Send` has applied to the older peers. -/
theorem foldl_apply (outs : List (OutgoingTopic Topic)) (addr : Addr) (thread : Option Name) :
    { outs.foldl RemoteNode.apply ⟨addr, ⟨fun _ => none, thread⟩, ⟨fun _ => none, thread⟩, false⟩
      with active := true } = peer outs addr thread := by
  induction outs using List.reverseRecOn with
  | nil => rfl
  | append_singleton outs out ih =>
    rw [peer_concat, ← ih, List.foldl_append]
    unfold RemoteNode.apply
    cases h : out.reliability <;> simp [h]

omit [DecidableEq Topic] [DecidableEq Ty] in
/-- The replay of handlers leaves the other remote ids alone. -/
theorem foldl_inbound_of_not_mem (ins : List (IncomingTopic Topic Ty)) (id : DelegateRemoteId)
    (h : id ∉ ins.map (·.remoteId))
    (channels : DelegateRemoteId → Option (InboundChannel Topic Ty)) :
    ins.foldl bindChannel channels id = channels id := by
  induction ins generalizing channels with
  | nil => rfl
  | cons t ins ih =>
    obtain ⟨hne, hnot⟩ : id ≠ t.remoteId ∧ id ∉ ins.map (·.remoteId) := by simpa using h
    rw [List.foldl_cons, ih hnot, bindChannel, Function.update_of_ne hne]

omit [DecidableEq Topic] in
/-- A handler for a remote id without a channel. -/
theorem addIncomingTopic_new (t : IncomingTopic Topic Ty)
    (channels : DelegateRemoteId → Option (InboundChannel Topic Ty))
    (h : channels t.remoteId = none) :
    addIncomingTopic channels t = some (bindChannel channels t) := by
  unfold addIncomingTopic
  rw [h]
  rfl

omit [DecidableEq Topic] in
theorem foldlM_addIncomingTopic (ins : List (IncomingTopic Topic Ty))
    (hnodup : (ins.map (·.remoteId)).Nodup) :
    ins.foldlM addIncomingTopic (fun _ => none) = some (inbound ins) := by
  induction ins using List.reverseRecOn with
  | nil => rfl
  | append_singleton ins t ih =>
    rw [List.map_append, List.nodup_append] at hnodup
    obtain ⟨hins, -, hdisjoint⟩ := hnodup
    have hfree : inbound ins t.remoteId = none :=
      foldl_inbound_of_not_mem ins t.remoteId
        (fun hmem => hdisjoint _ hmem t.remoteId (by simp) rfl) _
    rw [List.foldlM_append, ih hins]
    change List.foldlM addIncomingTopic (inbound ins) [t] = _
    rw [List.foldlM_cons, addIncomingTopic_new t _ hfree]
    simp [inbound]

/-! ## The order of the registrations -/

/-- Entries with the same key are equal. -/
theorem keys_ne {α κ : Type*} {l : List α} {key : α → κ} (h : (l.map key).Nodup) {a b : α}
    (ha : a ∈ l) (hb : b ∈ l) (hne : a ≠ b) : key a ≠ key b :=
  fun heq => hne (List.inj_on_of_nodup_map h ha hb heq)

omit [DecidableEq Ty] in
theorem remoteTopics_perm {outs outs' : List (OutgoingTopic Topic)} (h : outs.Perm outs')
    (hnodup : (outs.map (·.topic)).Nodup) (rel : Reliability) :
    remoteTopics rel outs = remoteTopics rel outs' := by
  refine h.foldl_eq' (fun a ha b hb map => ?_) _
  by_cases heq : a = b
  · rw [heq]
  · have hne := keys_ne hnodup ha hb heq
    split_ifs
    · exact Function.update_comm hne _ _ _
    all_goals rfl

omit [DecidableEq Topic] [DecidableEq Ty] in
theorem inbound_perm {ins ins' : List (IncomingTopic Topic Ty)} (h : ins.Perm ins')
    (hnodup : (ins.map (·.remoteId)).Nodup) : inbound ins = inbound ins' := by
  refine h.foldl_eq' (fun a ha b hb channels => ?_) _
  by_cases heq : a = b
  · rw [heq]
  · exact Function.update_comm (keys_ne hnodup ha hb heq) _ _ _

/-! ## The configuration after a list of calls -/

/-- The type that the bus has recorded for a topic that is sent. -/
def Fits (bus : DataBus Topic Ty V) : NodeCall Topic Ty Name Addr → Prop
  | .send out T _ => ∀ t, bus.typeIndices out.topic = some t → t = T
  | _ => True

/-- Calls that stay within the tables, over a bus that does not reject them. -/
structure WellFormed (k : Capacities) (bus : DataBus Topic Ty V)
    (calls : List (NodeCall Topic Ty Name Addr)) : Prop where
  peers : (addrs calls).length ≤ k.maxPeers
  outgoing : (outs calls).length ≤ k.maxTopics
  incoming : (ins calls).length ≤ k.maxTopics
  participants : bus.participants.length + 2 * (addrs calls).length ≤ k.maxParticipants
  topics : ((outs calls).map (·.topic)).Nodup
  remoteIds : ((ins calls).map (·.remoteId)).Nodup
  fits : ∀ c ∈ calls, Fits bus c

/-- The closed form. -/
structure Configured (bus : DataBus Topic Ty V) (r : Registered Topic Ty Name Addr)
    (node : NetworkNode Topic Ty V Name Addr) : Prop where
  outTopics : node.outTopics = r.outs
  inTopics : node.inTopics = r.ins
  thread : node.thread = r.name
  running : node.running = r.name.isSome
  recvParticipant : node.recvParticipant = r.name.map fun _ => inbound r.ins
  peers : node.peers = List.zipWith (peer r.outs) r.addrs r.threads
  participants : node.bus.participants.length = bus.participants.length + 2 * r.addrs.length
  types : ∀ topic t, node.bus.typeIndices topic = some t →
    bus.typeIndices topic = some t ∨ topic ∈ r.outs.map (·.topic)

variable {k : Capacities} {bus : DataBus Topic Ty V} {node : NetworkNode Topic Ty V Name Addr}
variable {calls calls' : List (NodeCall Topic Ty Name Addr)} {c : NodeCall Topic Ty Name Addr}

omit [DecidableEq Topic] [DecidableEq Ty] in
theorem WellFormed.front (h : WellFormed k bus (calls ++ [c])) : WellFormed k bus calls := by
  obtain ⟨hp, ho, hi, hpart, ht, hr, hf⟩ := h
  rw [addrs_concat, List.length_append] at hp hpart
  rw [outs_concat, List.length_append] at ho
  rw [ins_concat, List.length_append] at hi
  rw [outs_concat, List.map_append, List.nodup_append] at ht
  rw [ins_concat, List.map_append, List.nodup_append] at hr
  exact ⟨by omega, by omega, by omega, by omega, ht.1, hr.1,
    fun c hc => hf c (List.mem_append_left _ hc)⟩

omit [DecidableEq Ty] in
theorem Configured.initial :
    Configured bus (registered ([] : List (NodeCall Topic Ty Name Addr))) (initial bus) :=
  ⟨rfl, rfl, rfl, rfl, rfl, rfl, rfl, fun _ _ h => Or.inl h⟩

omit [DecidableEq Ty] in
theorem Configured.length_peers (h : Configured bus (registered calls) node) :
    node.peers.length = (addrs calls).length := by
  have hthreads := length_threads calls
  rw [h.peers, List.length_zipWith]
  simp only [registered]
  omega

theorem Configured.start (h : Configured bus (registered calls) node) {name : Name}
    (hw : WellFormed k bus calls) : ∃ node', node.start name = some node' ∧
      Configured bus (registered (calls ++ [.start name])) node' := by
  have hrunning := h.running
  unfold NetworkNode.start
  cases hname : threadName calls with
  | some name' =>
    -- a second `Start` does nothing
    rw [registered_restart hname]
    refine ⟨node, ?_, h⟩
    rw [hrunning]
    simp [registered, hname]
  | none =>
    have hreplay : node.inTopics.foldlM addIncomingTopic (fun _ => none) =
        some (inbound (ins calls)) := by
      rw [h.inTopics]
      exact foldlM_addIncomingTopic (ins calls) hw.remoteIds
    have hnot : node.running = false := by
      rw [hrunning]
      simp [registered, hname]
    rw [registered_start hname, hreplay, hnot]
    exact ⟨_, rfl, h.outTopics, h.inTopics, rfl, rfl, rfl, h.peers, h.participants, h.types⟩

omit [DecidableEq Ty] in
theorem Configured.addPeer (h : Configured bus (registered calls) node) {addr : Addr}
    (hw : WellFormed k bus (calls ++ [.addPeer addr])) :
    ∃ node', node.addPeer k addr = some node' ∧
      Configured bus (registered (calls ++ [.addPeer addr])) node' := by
  have hlen := h.length_peers
  have hparts : node.bus.participants.length =
      bus.participants.length + 2 * (addrs calls).length := h.participants
  have hpeers := hw.peers
  have hmax := hw.participants
  have haddr : (addrs (calls ++ [.addPeer addr])).length = (addrs calls).length + 1 := by
    rw [addrs_concat]
    simp [NodeCall.addr?]
  rw [haddr] at hpeers hmax
  -- both participants find a free slot
  have hfirst : node.bus.participants.length < k.maxParticipants := by omega
  have hsecond : node.bus.participants.length + 1 < k.maxParticipants := by omega
  rw [registered_addPeer]
  unfold NetworkNode.addPeer DataBus.internalAddParticipant
  rw [if_pos (by omega), if_pos hfirst]
  simp only [Option.bind_some, List.length_append, List.length_singleton, hsecond, if_true]
  refine ⟨_, rfl, h.outTopics, h.inTopics, h.thread, h.running, h.recvParticipant, ?_, ?_, h.types⟩
  · have hthread : node.thread = threadName calls := h.thread
    have hold : node.peers = List.zipWith (peer (outs calls)) (addrs calls) (threads calls) :=
      h.peers
    have houts : node.outTopics = outs calls := h.outTopics
    simp only [houts, hthread, foldl_apply, hold]
    rw [List.zipWith_append (length_threads calls).symm]
    rfl
  · simp only [List.length_append, List.length_cons, List.length_nil]
    omega

/-- The topic is new to the node, so only the bus can have a type for it. -/
theorem Configured.checkType (h : Configured bus (registered calls) node)
    {out : OutgoingTopic Topic} {T : Ty} {serializer : ℕ}
    (hw : WellFormed k bus (calls ++ [.send out T serializer])) :
    ∃ b', node.bus.checkType out.topic T = some b' := by
  have htopics := hw.topics
  rw [outs_concat, List.map_append, List.nodup_append] at htopics
  have hnew : out.topic ∉ (outs calls).map (·.topic) :=
    fun hmem => htopics.2.2 _ hmem out.topic (by simp [NodeCall.outgoing?]) rfl
  have hfits := hw.fits (.send out T serializer) (by simp)
  cases hc : node.bus.checkType out.topic T with
  | some b' => exact ⟨b', rfl⟩
  | none =>
    obtain ⟨t, ht, hne⟩ := DataBus.checkType_eq_none.mp hc
    exact absurd (hfits t ((h.types out.topic t ht).resolve_right hnew)) hne

theorem Configured.send (h : Configured bus (registered calls) node)
    {out : OutgoingTopic Topic} {T : Ty} {serializer : ℕ}
    (hw : WellFormed k bus (calls ++ [.send out T serializer])) :
    ∃ node', node.send k out T serializer = some node' ∧
      Configured bus (registered (calls ++ [.send out T serializer])) node' := by
  have hmax := hw.outgoing
  rw [outs_concat, List.length_append] at hmax
  have houts : node.outTopics = outs calls := h.outTopics
  have hroom : node.outTopics.length < k.maxTopics := by
    rw [houts]
    exact hmax
  obtain ⟨b', hb'⟩ := h.checkType hw
  obtain ⟨-, hframe⟩ := DataBus.checkType_eq_some hb'
  rw [registered_send]
  unfold NetworkNode.send DataBus.internalRegisterSerializer
  rw [if_pos hroom, hb']
  refine ⟨_, rfl, ?_, h.inTopics, h.thread, h.running, h.recvParticipant, ?_, ?_, ?_⟩
  · exact congrArg (· ++ [out]) houts
  · exact (congrArg (List.map _) h.peers).trans (map_apply (outs calls) out _ _)
  · rw [hframe]
    exact h.participants
  · -- the type of this topic is now known, that of every other topic as it was
    intro topic t ht
    replace ht : Function.update node.bus.typeIndices out.topic (some T) topic = some t := by
      rw [hframe] at ht
      exact ht
    rw [List.map_append, List.mem_append]
    by_cases heq : topic = out.topic
    · exact Or.inr (Or.inr (by simp [heq]))
    · rw [Function.update_of_ne heq] at ht
      rcases h.types topic t ht with hbus | hmem
      · exact Or.inl hbus
      · exact Or.inr (Or.inl hmem)

omit [DecidableEq Topic] in
/-- A new remote id gets its channel behind those already bound. -/
theorem addIncomingTopic_concat {ins : List (IncomingTopic Topic Ty)} {t : IncomingTopic Topic Ty}
    (h : ((ins ++ [t]).map (·.remoteId)).Nodup) :
    addIncomingTopic (inbound ins) t = some (inbound (ins ++ [t])) := by
  rw [List.map_append, List.nodup_append] at h
  have hfree : inbound ins t.remoteId = none :=
    foldl_inbound_of_not_mem ins t.remoteId
      (fun hmem => h.2.2 _ hmem t.remoteId (by simp) rfl) _
  have hbound : bindChannel (inbound ins) t = inbound (ins ++ [t]) := by
    unfold inbound
    rw [List.foldl_append]
    rfl
  rw [← hbound]
  exact addIncomingTopic_new t (inbound ins) hfree

theorem Configured.receive (h : Configured bus (registered calls) node)
    {t : IncomingTopic Topic Ty} (hw : WellFormed k bus (calls ++ [.receive t])) :
    ∃ node', node.receive k t = some node' ∧
      Configured bus (registered (calls ++ [.receive t])) node' := by
  have hmax := hw.incoming
  rw [ins_concat, List.length_append] at hmax
  have hids := hw.remoteIds
  rw [ins_concat] at hids
  have hadd : addIncomingTopic (inbound (ins calls)) t = some (inbound (ins calls ++ [t])) :=
    addIncomingTopic_concat hids
  have hins : node.inTopics = ins calls := h.inTopics
  have hroom : node.inTopics.length < k.maxTopics := by
    rw [hins]
    exact hmax
  have hrecv : node.recvParticipant = (threadName calls).map fun _ => inbound (ins calls) :=
    h.recvParticipant
  have hins' : node.inTopics ++ [t] = ins calls ++ [t] := by rw [hins]
  rw [registered_receive]
  unfold NetworkNode.receive
  rw [if_pos hroom, hrecv]
  -- before `Start` the topic is only remembered, after it the channel is bound at once
  cases hn : threadName calls with
  | none =>
    refine ⟨_, rfl, h.outTopics, hins', h.thread, h.running, ?_, h.peers, h.participants, h.types⟩
    simp [registered, hn]
  | some name =>
    simp only [Option.map_some, hadd]
    refine ⟨_, rfl, h.outTopics, hins', h.thread, h.running, ?_, h.peers, h.participants, h.types⟩
    simp [registered, hn]

/-- Every run of well-formed calls succeeds, in the closed form. -/
theorem run_configured (hw : WellFormed k bus calls) :
    ∃ node, run k calls (initial bus) = some node ∧ Configured bus (registered calls) node := by
  induction calls using List.reverseRecOn with
  | nil => exact ⟨_, rfl, .initial⟩
  | append_singleton calls c ih =>
    obtain ⟨node, hrun, h⟩ := ih hw.front
    have hstep : ∃ node', step k node c = some node' ∧
        Configured bus (registered (calls ++ [c])) node' := by
      cases c with
      | start name => exact h.start hw.front
      | addPeer addr => exact h.addPeer hw
      | send out T serializer => exact h.send hw
      | receive t => exact h.receive hw
    obtain ⟨node', hstep', h'⟩ := hstep
    refine ⟨node', ?_, h'⟩
    unfold run at hrun ⊢
    rw [List.foldlM_append, hrun]
    simpa using hstep'

/-! ## Two orders of the same calls -/

/-- The peers with their participants, and the inbound handlers. -/
def configuration (node : NetworkNode Topic Ty V Name Addr) :
    List (RemoteNode Topic Name Addr) ×
      Option (DelegateRemoteId → Option (InboundChannel Topic Ty)) :=
  (node.peers, node.recvParticipant)

/-- A peer without its send threads. -/
def topicMaps (p : RemoteNode Topic Name Addr) :
    Addr × (Topic → Option DelegateRemoteId) × (Topic → Option DelegateRemoteId) :=
  (p.addr, p.reliableParticipant.topicToRemoteId, p.unreliableParticipant.topicToRemoteId)

omit [DecidableEq Topic] [DecidableEq Ty] in
theorem WellFormed.perm (hw : WellFormed k bus calls) (h : calls.Perm calls') :
    WellFormed k bus calls' := by
  have ha := (h.filterMap NodeCall.addr?).length_eq
  have ho := h.filterMap NodeCall.outgoing?
  have hi := h.filterMap NodeCall.incoming?
  exact ⟨ha ▸ hw.peers, ho.length_eq ▸ hw.outgoing, hi.length_eq ▸ hw.incoming,
    ha ▸ hw.participants, (ho.map _).nodup_iff.mp hw.topics, (hi.map _).nodup_iff.mp hw.remoteIds,
    fun c hc => hw.fits c (h.mem_iff.mpr hc)⟩

omit [DecidableEq Topic] [DecidableEq Ty] in
theorem threadName_of_once {name : Name} (h : calls.filterMap NodeCall.name? = [name]) :
    threadName calls = some name := by
  unfold threadName
  rw [← List.head?_filterMap, h]
  rfl

omit [DecidableEq Topic] [DecidableEq Ty] in
/-- The peers without a send thread are those from before `Start`. -/
theorem countP_threads {name : Name} (h : threadName calls = some name) :
    (threads calls).countP Option.isNone = peersBeforeStart calls := by
  unfold threads
  rw [h, List.countP_append, List.countP_replicate, List.countP_replicate]
  simp

omit [DecidableEq Topic] [DecidableEq Ty] in
theorem threads_eq_iff {name : Name} (hname : threadName calls = some name)
    (hname' : threadName calls' = some name) (haddr : addrs calls = addrs calls') :
    threads calls = threads calls' ↔ peersBeforeStart calls = peersBeforeStart calls' := by
  constructor
  · intro h
    rw [← countP_threads hname, ← countP_threads hname', h]
  · intro h
    unfold threads
    rw [hname, hname', haddr, h]

omit [DecidableEq Ty] in
theorem zipWith_peer_congr {outs outs' : List (OutgoingTopic Topic)} (h : outs.Perm outs')
    (hnodup : (outs.map (·.topic)).Nodup) (addrs : List Addr) (threads : List (Option Name)) :
    List.zipWith (peer outs) addrs threads = List.zipWith (peer outs') addrs threads := by
  congr 1
  funext addr thread
  unfold peer
  rw [remoteTopics_perm h hnodup, remoteTopics_perm h hnodup]

omit [DecidableEq Ty] in
/-- The send threads can be read off the peers. -/
theorem map_sendThread (outs : List (OutgoingTopic Topic)) {addrs : List Addr}
    {threads : List (Option Name)} (h : threads.length = addrs.length) :
    (List.zipWith (peer outs) addrs threads).map (·.reliableParticipant.sendThread) = threads := by
  rw [List.map_zipWith]
  refine List.ext_getElem (by simp [h]) fun i hi hi' => ?_
  simp [peer]

omit [DecidableEq Ty] in
theorem map_topicMaps (outs : List (OutgoingTopic Topic)) {addrs : List Addr}
    {threads : List (Option Name)} (h : threads.length = addrs.length) :
    (List.zipWith (peer outs) addrs threads).map topicMaps = addrs.map fun addr =>
      (addr, remoteTopics .reliable outs, remoteTopics .unreliable outs) := by
  rw [List.map_zipWith]
  refine List.ext_getElem (by simp [h]) fun i hi hi' => ?_
  simp [peer, topicMaps]

/-- Two orders of the same calls, with `AddPeer` calls in the same order: both
succeed, with the same topic maps and handlers; the whole configuration is the
same if and only if equally many `AddPeer` calls come before `Start`. -/
theorem same_configuration_iff {name : Name} (hperm : calls.Perm calls')
    (haddr : addrs calls = addrs calls') (hstart : calls.filterMap NodeCall.name? = [name])
    (hw : WellFormed k bus calls) :
    ∃ node node', run k calls (initial bus) = some node ∧
      run k calls' (initial bus) = some node' ∧
      node.recvParticipant = node'.recvParticipant ∧
      node.peers.map topicMaps = node'.peers.map topicMaps ∧
      (node.configuration = node'.configuration ↔
        peersBeforeStart calls = peersBeforeStart calls') := by
  have hw' := hw.perm hperm
  have hname := threadName_of_once hstart
  have hname' : threadName calls' = some name := by
    refine threadName_of_once (List.perm_singleton.mp ?_)
    rw [← hstart]
    exact (hperm.filterMap _).symm
  obtain ⟨node, hrun, h⟩ := run_configured hw
  obtain ⟨node', hrun', h'⟩ := run_configured hw'
  have houts : (outs calls).Perm (outs calls') := hperm.filterMap _
  have hlen := length_threads calls
  have hlen' := length_threads calls'
  -- the outgoing topics are the same set, so the peers differ in their threads alone
  have hpeers : node.peers = List.zipWith (peer (outs calls')) (addrs calls') (threads calls) := by
    rw [h.peers, ← haddr]
    exact zipWith_peer_congr houts hw.topics _ _
  have hpeers' : node'.peers =
      List.zipWith (peer (outs calls')) (addrs calls') (threads calls') := h'.peers
  have hrecv : node.recvParticipant = node'.recvParticipant := by
    rw [h.recvParticipant, h'.recvParticipant]
    simp only [registered, hname, hname', Option.map_some]
    rw [inbound_perm (hperm.filterMap _) hw.remoteIds]
  rw [haddr] at hlen
  refine ⟨node, node', hrun, hrun', hrecv, ?_, ?_⟩
  · rw [hpeers, hpeers', map_topicMaps _ hlen, map_topicMaps _ hlen']
  · rw [← threads_eq_iff hname hname' haddr]
    unfold configuration
    rw [Prod.mk.injEq, and_iff_left hrecv]
    constructor
    · intro heq
      have hmap := congrArg (List.map (·.reliableParticipant.sendThread)) heq
      rwa [hpeers, hpeers', map_sendThread _ hlen, map_sendThread _ hlen'] at hmap
    · intro heq
      rw [hpeers, hpeers', heq]

end NetworkNode

/-! ## Concrete orders -/

namespace NetworkNode

/-- One peer, one topic in each direction. -/
def exampleCalls : List (NodeCall ℕ ℕ ℕ ℕ) :=
  [.start 1, .receive ⟨5, 50, 7, 0⟩, .addPeer 9, .send ⟨6, 60, .reliable⟩ 8 1]

/-- The same calls: the registrations come first. -/
def earlyRegistrations : List (NodeCall ℕ ℕ ℕ ℕ) :=
  [.send ⟨6, 60, .reliable⟩ 8 1, .receive ⟨5, 50, 7, 0⟩, .start 1, .addPeer 9]

/-- The same calls: the peer comes before `Start`. -/
def earlyPeer : List (NodeCall ℕ ℕ ℕ ℕ) :=
  [.addPeer 9, .start 1, .receive ⟨5, 50, 7, 0⟩, .send ⟨6, 60, .reliable⟩ 8 1]

def exampleCapacities : Capacities := ⟨4, 16, 8⟩

def exampleBus : DataBus ℕ ℕ ℕ := DataBus.initial

theorem wellFormed_exampleCalls : WellFormed exampleCapacities exampleBus exampleCalls where
  peers := by decide
  outgoing := by decide
  incoming := by decide
  participants := by decide
  topics := by decide
  remoteIds := by decide
  fits := by simp [exampleCalls, exampleBus, DataBus.initial, Fits]

theorem same_configuration_iff_example : ∃ node node',
    run exampleCapacities exampleCalls (initial exampleBus) = some node ∧
    run exampleCapacities earlyRegistrations (initial exampleBus) = some node' ∧
    node.configuration = node'.configuration := by
  have hperm : exampleCalls.Perm earlyRegistrations := by decide
  obtain ⟨node, node', hrun, hrun', -, -, hiff⟩ :=
    same_configuration_iff hperm rfl rfl wellFormed_exampleCalls
  exact ⟨node, node', hrun, hrun', hiff.mpr rfl⟩

/-- The participants of a peer that was added before `Start` send inline, on the
thread that publishes. -/
theorem not_same_configuration : ∃ node node',
    run exampleCapacities exampleCalls (initial exampleBus) = some node ∧
    run exampleCapacities earlyPeer (initial exampleBus) = some node' ∧
    exampleCalls.Perm earlyPeer ∧
    node.peers.map (·.reliableParticipant.sendThread) = [some 1] ∧
    node'.peers.map (·.reliableParticipant.sendThread) = [none] :=
  ⟨_, _, rfl, rfl, by decide, rfl, rfl⟩

end NetworkNode

end AsyncSqlite
