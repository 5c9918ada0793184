import AsyncSqlite.Data.OrderedMap
import AsyncSqlite.Lts.Core
import Mathlib.Data.Nat.Bitwise
import Mathlib.Algebra.Order.Ring.Int

/-!
# AsyncSqlite.Remote.Monitor — `TransportMonitor`

The pending map with the three operations on it, and the system of any number
of calls that use one monitor.

* **Functions**: `Pending.add`, `Pending.remove` and `Pending.scan` are the
  locked sections of `Add`, `Remove` and `Process`. A `Pending` carries the key
  of each of its entries and the cap.
* **Calls**: the locked section of `Remove` and of a pass of `Process` is one
  step, each status that is emitted afterwards is one step. Calls are numbered
  as they begin and interleave freely, so the runs contain passes that overlap
  on two threads and operations that a subscriber makes inside its callback.
* **Shared buffer**: a pass leaves what it has to report in the member
  `m_expiredItems`, which all calls share.
* **History**: `added`, `left` and `emitted` record what happened; `taken` is
  what a pass has removed and not reported yet. No step reads them.
-/

namespace AsyncSqlite

abbrev DelegateRemoteId := UInt16

/-- `ACK_REMOTE_ID` -/
def ackRemoteId : DelegateRemoteId := 0

/-- Build options and the constructor's argument. -/
structure MonitorConfig where
  /-- `MAX_TRANSPORT_MONITOR_PENDING` -/
  maxPending : ℕ
  /-- `MAX_TIMER_EXPIRED` -/
  maxExpired : ℕ
  /-- `TRANSPORT_TIMEOUT` -/
  timeout : ℤ

namespace MonitorConfig

/-- The values of the default configuration, in milliseconds. -/
def default : MonitorConfig := ⟨100, 16, 2000⟩

end MonitorConfig

/-- `TransportMonitor::Status` -/
inductive SendStatus
  | success
  | timeout
  deriving DecidableEq

structure TimeoutData where
  remoteId : DelegateRemoteId
  seqNum : UInt16
  timeStamp : ℤ
  deriving DecidableEq

/-- `(static_cast<uint32_t>(remoteId) << 16) | seqNum` -/
def sendKey (remoteId : DelegateRemoteId) (seqNum : UInt16) : ℕ :=
  (remoteId.toNat <<< 16) ||| seqNum.toNat

theorem sendKey_eq (remoteId : DelegateRemoteId) (seqNum : UInt16) :
    sendKey remoteId seqNum = remoteId.toNat * 65536 + seqNum.toNat := by
  unfold sendKey
  rw [← Nat.shiftLeft_add_eq_or_of_lt (by simpa using seqNum.toNat_lt), Nat.shiftLeft_eq]

theorem sendKey_inj {i j : DelegateRemoteId} {m n : UInt16} :
    sendKey i m = sendKey j n ↔ i = j ∧ m = n := by
  constructor
  · intro h
    have hm := m.toNat_lt
    have hn := n.toNat_lt
    rw [sendKey_eq, sendKey_eq] at h
    exact ⟨UInt16.toNat_inj.mp (by omega), UInt16.toNat_inj.mp (by omega)⟩
  · rintro ⟨rfl, rfl⟩
    rfl

def TimeoutData.key (d : TimeoutData) : ℕ := sendKey d.remoteId d.seqNum

/-- One cell of `m_expiredItems`. -/
structure ExpiredItem where
  seq : UInt16
  data : TimeoutData

def ExpiredItem.ofData (d : TimeoutData) : ExpiredItem := ⟨d.seqNum, d⟩

/-- What subscribers of `OnSendStatus` receive. -/
structure StatusReport where
  remoteId : DelegateRemoteId
  seqNum : UInt16
  status : SendStatus
  deriving DecidableEq

/-! ## The pending map -/

/-- `m_pending`: entries under their own keys, within the cap. -/
structure Pending (cfg : MonitorConfig) where
  map : OrderedMap ℕ TimeoutData
  keyed : ∀ e ∈ map.entries, e.1 = e.2.key
  capped : map.size ≤ cfg.maxPending

namespace Pending

variable {cfg : MonitorConfig}

def empty : Pending cfg where
  map := OrderedMap.empty
  keyed := fun _ h => absurd h List.not_mem_nil
  capped := Nat.zero_le _

/-- What `Add` returns, the entry that it made and the size that `OnCapExceeded`
reports. -/
structure AddResult (cfg : MonitorConfig) where
  pending : Pending cfg
  accepted : Bool
  tracked : Option TimeoutData
  capExceeded : Option ℕ

/-- `Add` -/
def add (p : Pending cfg) (seqNum : UInt16) (remoteId : DelegateRemoteId) (now : ℤ) :
    AddResult cfg :=
  if hfull : cfg.maxPending ≤ p.map.size then
    -- `capSize` is the size; the call fails only `if (capSize > 0)`
    if p.map.size = 0 then ⟨p, true, none, none⟩ else ⟨p, false, none, some p.map.size⟩
  else if hfree : p.map.find? (sendKey remoteId seqNum) = none then
    { pending :=
        { map := p.map.insert (sendKey remoteId seqNum) ⟨remoteId, seqNum, now⟩
          keyed := by
            intro e he
            rcases (OrderedMap.mem_insert e).mp he with rfl | he
            · rfl
            · exact p.keyed e he.1
          capped := by
            rw [OrderedMap.size_insert hfree]
            omega }
      accepted := true
      tracked := some ⟨remoteId, seqNum, now⟩
      capExceeded := none }
  else ⟨p, false, none, none⟩

/-- Erase what a traversal erases. -/
def keep (p : Pending cfg) (q : ℕ × TimeoutData → Bool) : Pending cfg where
  map := p.map.filter q
  keyed := fun e he => p.keyed e (OrderedMap.mem_filter.mp he).1
  capped := (OrderedMap.size_filter_le p.map q).trans p.capped

/-- `m_pending.erase` -/
def erase (p : Pending cfg) (k : ℕ) : Pending cfg := p.keep fun e => e.1 ≠ k

/-- The entry that `Remove(seqNum, remoteId)` removes: by key, or the first one
with that number if the remote id is unknown. -/
def lookup (p : Pending cfg) (seqNum : UInt16) (remoteId : DelegateRemoteId) :
    Option TimeoutData :=
  if remoteId ≠ 0 then p.map.find? (sendKey remoteId seqNum)
  else (p.map.entries.find? fun e => e.2.seqNum = seqNum).map Prod.snd

/-- The locked section of `Remove`. -/
def remove (p : Pending cfg) (seqNum : UInt16) (remoteId : DelegateRemoteId) :
    Option TimeoutData × Pending cfg :=
  match p.lookup seqNum remoteId with
  | some d => (some d, p.erase d.key)
  | none => (none, p)

/-- `elapsed > TRANSPORT_TIMEOUT` -/
def expired (cfg : MonitorConfig) (now : ℤ) (e : ℕ × TimeoutData) : Bool :=
  cfg.timeout < now - e.2.timeStamp

/-- The `while` loop of `Process`: what it moves to the buffer behind the
`count` cells in use, and whether it stops because the buffer is full. -/
def scan (cfg : MonitorConfig) (now : ℤ) : ℕ → List (ℕ × TimeoutData) →
    List (ℕ × TimeoutData) × Bool
  | _, [] => ([], false)
  | count, e :: es =>
    if expired cfg now e then
      if cfg.maxExpired ≤ count then ([], true)
      else (e :: (scan cfg now (count + 1) es).1, (scan cfg now (count + 1) es).2)
    else scan cfg now count es

/-- The locked section of one pass of `Process`. -/
structure Pass (cfg : MonitorConfig) where
  pending : Pending cfg
  items : List TimeoutData
  remaining : ℕ

def pass (p : Pending cfg) (now : ℤ) : Pass cfg :=
  let found := scan cfg now 0 p.map.entries
  let rest := p.keep fun e => e ∉ found.1
  ⟨rest, found.1.map Prod.snd, if found.2 then rest.map.size else 0⟩

/-! ### What the operations do -/

variable {p : Pending cfg}

theorem mem_entries {d : TimeoutData} {k : ℕ} (h : p.map.find? k = some d) : k = d.key :=
  p.keyed _ (OrderedMap.mem_entries.mpr h)

/-- The values of the map. -/
def data (p : Pending cfg) : List TimeoutData := p.map.entries.map Prod.snd

theorem mem_data {d : TimeoutData} : d ∈ p.data ↔ p.map.find? d.key = some d := by
  unfold data
  rw [List.mem_map]
  constructor
  · rintro ⟨⟨k, d'⟩, he, rfl⟩
    have hk : k = d'.key := p.keyed _ he
    rw [← hk]
    exact OrderedMap.mem_entries.mp he
  · intro h
    exact ⟨_, OrderedMap.mem_entries.mpr h, rfl⟩

theorem find?_erase (p : Pending cfg) (k j : ℕ) :
    (p.erase k).map.find? j = if j = k then none else p.map.find? j :=
  OrderedMap.find?_erase p.map k j

theorem data_erase {d : TimeoutData} (h : p.map.find? d.key = some d) :
    p.data.Perm (d :: (p.erase d.key).data) :=
  (OrderedMap.entries_erase h).map Prod.snd

/-- `Add` makes an entry: the map is not full and the key is free. -/
def Admits (p : Pending cfg) (seqNum : UInt16) (remoteId : DelegateRemoteId) : Prop :=
  p.map.size < cfg.maxPending ∧ p.map.find? (sendKey remoteId seqNum) = none

instance (p : Pending cfg) (seqNum : UInt16) (remoteId : DelegateRemoteId) :
    Decidable (p.Admits seqNum remoteId) :=
  inferInstanceAs (Decidable (_ ∧ _))

theorem add_of_admits {seqNum : UInt16} {remoteId : DelegateRemoteId}
    (h : p.Admits seqNum remoteId) (now : ℤ) :
    (p.add seqNum remoteId now).pending.map =
        p.map.insert (sendKey remoteId seqNum) ⟨remoteId, seqNum, now⟩ ∧
      (p.add seqNum remoteId now).accepted = true ∧
      (p.add seqNum remoteId now).tracked = some ⟨remoteId, seqNum, now⟩ := by
  obtain ⟨hroom, hfree⟩ := h
  unfold add
  rw [dif_neg (not_le.mpr hroom), dif_pos hfree]
  exact ⟨rfl, rfl, rfl⟩

/-- Otherwise the map stays as it is, and the call fails unless the cap is 0. -/
theorem add_of_not_admits {seqNum : UInt16} {remoteId : DelegateRemoteId}
    (h : ¬ p.Admits seqNum remoteId) (now : ℤ) :
    (p.add seqNum remoteId now).pending = p ∧ (p.add seqNum remoteId now).tracked = none ∧
      ((p.add seqNum remoteId now).accepted = true ↔ cfg.maxPending = 0) := by
  have hcap := p.capped
  unfold add
  split_ifs with hfull hzero hfree
  · exact ⟨rfl, rfl, by simpa using (show cfg.maxPending = 0 by omega)⟩
  · refine ⟨rfl, rfl, iff_of_false id ?_⟩
    omega
  · exact absurd ⟨not_le.mp hfull, hfree⟩ h
  · refine ⟨rfl, rfl, iff_of_false id ?_⟩
    omega

theorem data_add (p : Pending cfg) (seqNum : UInt16) (remoteId : DelegateRemoteId) (now : ℤ) :
    (p.add seqNum remoteId now).pending.data.Perm
      ((p.add seqNum remoteId now).tracked.toList ++ p.data) := by
  by_cases hadm : p.Admits seqNum remoteId
  · obtain ⟨hmap, -, htr⟩ := add_of_admits hadm now
    rw [htr]
    unfold data
    rw [hmap]
    exact (OrderedMap.entries_insert hadm.2).map Prod.snd
  · obtain ⟨hsame, htr, -⟩ := add_of_not_admits hadm now
    rw [htr, hsame]
    exact List.Perm.refl _

theorem lookup_some {seqNum : UInt16} {remoteId : DelegateRemoteId} {d : TimeoutData}
    (h : p.lookup seqNum remoteId = some d) :
    p.map.find? d.key = some d ∧ d.seqNum = seqNum ∧ (remoteId ≠ 0 → d.remoteId = remoteId) := by
  unfold lookup at h
  split_ifs at h with hid
  · have hk : sendKey remoteId seqNum = sendKey d.remoteId d.seqNum := mem_entries h
    obtain ⟨rfl, rfl⟩ := sendKey_inj.mp hk
    exact ⟨h, rfl, fun _ => rfl⟩
  · obtain ⟨e, he, rfl⟩ := Option.map_eq_some_iff.mp h
    have hmem := List.mem_of_find?_eq_some he
    refine ⟨?_, by simpa using List.find?_some he, fun hne => absurd hne hid⟩
    rw [← p.keyed e hmem]
    exact OrderedMap.mem_entries.mp hmem

theorem remove_of_some {seqNum : UInt16} {remoteId : DelegateRemoteId} {d : TimeoutData}
    (h : p.lookup seqNum remoteId = some d) :
    p.remove seqNum remoteId = (some d, p.erase d.key) := by
  unfold remove
  rw [h]

theorem remove_of_none {seqNum : UInt16} {remoteId : DelegateRemoteId}
    (h : p.lookup seqNum remoteId = none) : p.remove seqNum remoteId = (none, p) := by
  unfold remove
  rw [h]

/-- A pass takes the first expired entries in key order, as many as the buffer
holds. -/
theorem scan_eq (cfg : MonitorConfig) (now : ℤ) (es : List (ℕ × TimeoutData)) :
    ∀ count, (scan cfg now count es).1 =
      (es.filter (expired cfg now)).take (cfg.maxExpired - count) := by
  induction es with
  | nil =>
    intro count
    simp [scan]
  | cons e es ih =>
    intro count
    unfold scan
    split_ifs with hexp hfull
    · rw [Nat.sub_eq_zero_of_le hfull]
      rfl
    · have hcount : cfg.maxExpired - count = (cfg.maxExpired - (count + 1)) + 1 := by omega
      rw [List.filter_cons_of_pos hexp, hcount, List.take_succ_cons, ih]
    · rw [List.filter_cons_of_neg hexp, ih]

theorem scan_sublist (p : Pending cfg) (now : ℤ) :
    (scan cfg now 0 p.map.entries).1.Sublist p.map.entries := by
  rw [scan_eq]
  exact (List.take_sublist _ _).trans List.filter_sublist

theorem items_pass (p : Pending cfg) (now : ℤ) :
    (p.pass now).items = (scan cfg now 0 p.map.entries).1.map Prod.snd := rfl

theorem mem_pass {now : ℤ} {e : ℕ × TimeoutData} :
    e ∈ (p.pass now).pending.map.entries ↔
      e ∈ p.map.entries ∧ e ∉ (scan cfg now 0 p.map.entries).1 := by
  have h := OrderedMap.mem_filter (m := p.map) (e := e)
    (p := fun e => decide (e ∉ (scan cfg now 0 p.map.entries).1))
  rw [decide_eq_true_eq] at h
  exact h

/-- A pass moves entries from the map to its items. -/
theorem data_pass (p : Pending cfg) (now : ℤ) :
    p.data.Perm ((p.pass now).items ++ (p.pass now).pending.data) := by
  unfold data
  rw [items_pass, ← List.map_append]
  exact (OrderedMap.entries_split (scan_sublist p now)).map Prod.snd

/-- The entries that a pass at `now` finds expired. -/
def expiredCount (p : Pending cfg) (now : ℤ) : ℕ :=
  (p.map.entries.filter (expired cfg now)).length

theorem length_items (p : Pending cfg) (now : ℤ) :
    (p.pass now).items.length = min cfg.maxExpired (p.expiredCount now) := by
  rw [items_pass, List.length_map, scan_eq, List.length_take, Nat.sub_zero, expiredCount]

end Pending

/-! ## Calls -/

/-- Where a call of `Remove` or `Process` stands, outside the lock. -/
inductive MonitorPc
  | idle
  /-- `Remove` has erased the entry -/
  | removed (d : TimeoutData) (seqNum : UInt16)
  /-- `Process` is about to lock -/
  | passing
  /-- the `for` loop over the cells from `next` on -/
  | firing (next count remaining : ℕ)
  | returned
  deriving DecidableEq

/-- How an entry left the pending map. -/
inductive Exit
  | remove
  | process
  deriving DecidableEq

/-- The status that a subscriber is owed. -/
def Exit.status : Exit → SendStatus
  | .remove => .success
  | .process => .timeout

structure Departure where
  call : ℕ
  data : TimeoutData
  exit : Exit
  deriving DecidableEq

def Departure.report (d : Departure) : ℕ × StatusReport :=
  (d.call, ⟨d.data.remoteId, d.data.seqNum, d.exit.status⟩)

/-- One monitor and the calls that use it. -/
structure MonitorSys (cfg : MonitorConfig) where
  pending : Pending cfg
  expiredItems : ℕ → ExpiredItem
  /-- calls of `Remove` and `Process` so far -/
  begun : ℕ
  call : ℕ → MonitorPc
  taken : ℕ → List TimeoutData
  added : List TimeoutData
  left : List Departure
  emitted : List (ℕ × StatusReport)
  /-- `OnCapExceeded` and `OnPendingExceeded` -/
  capExceeded : List ℕ
  pendingExceeded : List ℕ

/-- The steps; `now` is what `Clock::now()` returns in them. -/
inductive MonitorLabel
  | add (seqNum : UInt16) (remoteId : DelegateRemoteId) (now : ℤ)
  | remove (seqNum : UInt16) (remoteId : DelegateRemoteId)
  | process
  | pass (p : ℕ) (now : ℤ)
  | fire (p : ℕ)
  | finish (p : ℕ)

namespace MonitorSys

variable {cfg : MonitorConfig}

def initial (cfg : MonitorConfig) : MonitorSys cfg where
  pending := .empty
  expiredItems := fun _ => ⟨0, ⟨0, 0, 0⟩⟩
  begun := 0
  call := fun _ => .idle
  taken := fun _ => []
  added := []
  left := []
  emitted := []
  capExceeded := []
  pendingExceeded := []

def setCall (s : MonitorSys cfg) (p : ℕ) (pc : MonitorPc) : MonitorSys cfg :=
  { s with call := Function.update s.call p pc }

/-- The status that call `p` emits next. -/
def emission (s : MonitorSys cfg) (p : ℕ) : Option StatusReport :=
  match s.call p with
  | .removed d seqNum => some ⟨d.remoteId, seqNum, .success⟩
  | .firing next count _ =>
    if next < count then
      some ⟨(s.expiredItems next).data.remoteId, (s.expiredItems next).seq, .timeout⟩
    else none
  | _ => none

def guard : MonitorLabel → MonitorSys cfg → Prop
  | .add .., _ => True
  | .remove .., _ => True
  | .process, _ => True
  | .pass p _, s => s.call p = .passing
  | .fire p, s => s.emission p ≠ none
  | .finish p, s => match s.call p with
    | .firing next count _ => next = count
    | _ => False

def add (s : MonitorSys cfg) (seqNum : UInt16) (remoteId : DelegateRemoteId) (now : ℤ) :
    MonitorSys cfg :=
  let r := s.pending.add seqNum remoteId now
  { s with
    pending := r.pending
    added := s.added ++ r.tracked.toList
    capExceeded := s.capExceeded ++ r.capExceeded.toList }

/-- A call of `Remove` up to the end of its locked section. -/
def remove (s : MonitorSys cfg) (seqNum : UInt16) (remoteId : DelegateRemoteId) :
    MonitorSys cfg :=
  match s.pending.remove seqNum remoteId with
  | (some d, pending) =>
    { s with
      pending := pending
      begun := s.begun + 1
      call := Function.update s.call s.begun (.removed d seqNum)
      left := s.left ++ [⟨s.begun, d, .remove⟩] }
  | (none, pending) =>
    { s with
      pending := pending
      begun := s.begun + 1
      call := Function.update s.call s.begun .returned }

/-- The items of a pass are written to the first cells of the buffer. -/
def writeItems (items : List TimeoutData) (cells : ℕ → ExpiredItem) : ℕ → ExpiredItem :=
  fun i => (items[i]?.map ExpiredItem.ofData).getD (cells i)

/-- One locked section of `Process`. -/
def pass (s : MonitorSys cfg) (p : ℕ) (now : ℤ) : MonitorSys cfg :=
  let r := s.pending.pass now
  if s.pending.map.size = 0 then s.setCall p .returned
  else
    { s with
      pending := r.pending
      expiredItems := writeItems r.items s.expiredItems
      call := Function.update s.call p (.firing 0 r.items.length r.remaining)
      taken := Function.update s.taken p r.items
      left := s.left ++ r.items.map fun d => ⟨p, d, .process⟩ }

/-- `OnSendStatus` -/
def fire (s : MonitorSys cfg) (p : ℕ) : MonitorSys cfg :=
  { s with
    emitted := s.emitted ++ (s.emission p).toList.map fun r => (p, r)
    call := Function.update s.call p
      (match s.call p with
      | .firing next count remaining => .firing (next + 1) count remaining
      | _ => .returned)
    taken := Function.update s.taken p (s.taken p).tail }

/-- The end of a pass: `OnPendingExceeded`, then `while (expiredCount ==
MAX_TIMER_EXPIRED)`. -/
def finish (s : MonitorSys cfg) (p : ℕ) : MonitorSys cfg :=
  match s.call p with
  | .firing _ count remaining =>
    { s with
      call := Function.update s.call p (if count = cfg.maxExpired then .passing else .returned)
      pendingExceeded := if 0 < remaining then s.pendingExceeded ++ [remaining]
        else s.pendingExceeded }
  | _ => s

def update : MonitorLabel → MonitorSys cfg → MonitorSys cfg
  | .add seqNum remoteId now, s => s.add seqNum remoteId now
  | .remove seqNum remoteId, s => s.remove seqNum remoteId
  | .process, s =>
    { s with
      begun := s.begun + 1
      call := Function.update s.call s.begun .passing }
  | .pass p now, s => s.pass p now
  | .fire p, s => s.fire p
  | .finish p, s => s.finish p

end MonitorSys

def monitorLts (cfg : MonitorConfig) : Lts (MonitorSys cfg) MonitorLabel where
  init s := s = MonitorSys.initial cfg
  guard := MonitorSys.guard
  update := MonitorSys.update

end AsyncSqlite
