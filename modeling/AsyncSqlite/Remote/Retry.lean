import AsyncSqlite.Remote.Transport

/-!
# AsyncSqlite.Remote.Retry — `RetryMonitor`

The retry store and the locked sections of `SendWithRetry` and
`OnStatusChanged`, and `SendWithRetry` as one function, which is what a call
does if nothing else runs.

A call that fails should leave no trace. It stores the packet, lets the
monitor track the message and sends it, each under its own lock, and the
failure branches erase the packet again. `no_trace_iff` says when that undoes
the call.
-/

namespace AsyncSqlite

structure RetryEntry where
  packetData : List UInt8
  header : DmqHeader
  attemptsRemaining : ℤ
  isSent : Bool
  deriving DecidableEq

def DmqHeader.key (h : DmqHeader) : ℕ := sendKey h.id h.seqNum

def StatusReport.key (r : StatusReport) : ℕ := sendKey r.remoteId r.seqNum

/-- `m_retryStore` -/
abbrev RetryStore := OrderedMap ℕ RetryEntry

namespace RetryStore

/-! ## Locked sections -/

/-- The first one of `SendWithRetry`. -/
def put (st : RetryStore) (maxRetries : ℤ) (os : List UInt8) (header : DmqHeader) : RetryStore :=
  st.insert header.key ⟨os, header, maxRetries, false⟩

/-- The one after a successful `Send`. -/
def markSent (st : RetryStore) (key : ℕ) : RetryStore :=
  match st.find? key with
  | some e => st.insert key { e with isSent := true }
  | none => st

/-- What `OnStatusChanged` does outside the lock. -/
inductive Action
  | done
  | retry (payload : List UInt8) (header : DmqHeader)
  | reregister (header : DmqHeader)
  deriving DecidableEq

/-- The locked section of `OnStatusChanged`. -/
def onStatus (st : RetryStore) (r : StatusReport) : RetryStore × Action :=
  match st.find? r.key with
  | none => (st, .done)
  | some e =>
    match r.status with
    | .success => (st.erase r.key, .done)
    | .timeout =>
      if 0 < e.attemptsRemaining ∧ e.isSent then
        (st.insert r.key { e with attemptsRemaining := e.attemptsRemaining - 1 },
          .retry e.packetData e.header)
      else if 0 < e.attemptsRemaining ∧ ¬ e.isSent then
        -- the initial `Send` is still executing
        (st, .reregister e.header)
      else if e.attemptsRemaining ≤ 0 then (st.erase r.key, .done)
      else (st, .done)

/-- What a status can lead to. -/
theorem onStatus_cases (st : RetryStore) (r : StatusReport) :
    (st.find? r.key = none ∧ st.onStatus r = (st, .done)) ∨
    ∃ e, st.find? r.key = some e ∧
      ((r.status = .success ∧ st.onStatus r = (st.erase r.key, .done)) ∨
      (r.status = .timeout ∧ e.attemptsRemaining ≤ 0 ∧
        st.onStatus r = (st.erase r.key, .done)) ∨
      (r.status = .timeout ∧ 0 < e.attemptsRemaining ∧ e.isSent = true ∧ st.onStatus r =
        (st.insert r.key { e with attemptsRemaining := e.attemptsRemaining - 1 },
          .retry e.packetData e.header)) ∨
      (r.status = .timeout ∧ 0 < e.attemptsRemaining ∧ e.isSent = false ∧
        st.onStatus r = (st, .reregister e.header))) := by
  unfold onStatus
  cases hf : st.find? r.key with
  | none => exact Or.inl ⟨rfl, rfl⟩
  | some e =>
    refine Or.inr ⟨e, rfl, ?_⟩
    cases hs : r.status with
    | success => exact Or.inl ⟨rfl, rfl⟩
    | timeout =>
      right
      by_cases hpos : 0 < e.attemptsRemaining
      · cases hsent : e.isSent with
        | true => exact Or.inr (Or.inl ⟨rfl, hpos, rfl, by simp [hpos, hsent]⟩)
        | false => exact Or.inr (Or.inr ⟨rfl, hpos, rfl, by simp [hpos, hsent]⟩)
      · exact Or.inl ⟨rfl, not_lt.mp hpos, by simp [hpos, not_lt.mp hpos]⟩

theorem find?_markSent (st : RetryStore) (key k : ℕ) :
    (st.markSent key).find? k =
      (st.find? k).map fun e => if k = key then { e with isSent := true } else e := by
  unfold markSent
  cases hf : st.find? key with
  | none =>
    by_cases hk : k = key
    · simp [hk, hf]
    · simp [hk]
  | some e =>
    rw [OrderedMap.find?_insert]
    by_cases hk : k = key
    · simp [hk, hf]
    · simp [hk]

end RetryStore

/-! ## A call without concurrent operations -/

/-- A `RetryMonitor` and the map of its `TransportMonitor`. -/
structure RetryMonitor (cfg : MonitorConfig) where
  store : RetryStore
  pending : Pending cfg

namespace RetryMonitor

variable {cfg : MonitorConfig}

/-- `SendWithRetry`; `sendResult` is what `m_transport->Send` returns, if it is
called. -/
def sendWithRetry (m : RetryMonitor cfg) (maxRetries : ℤ) (os : List UInt8) (header : DmqHeader)
    (now sendResult : ℤ) : ℤ × RetryMonitor cfg :=
  let stored := m.store.put maxRetries os header
  let added := m.pending.add header.seqNum header.id now
  if added.accepted = false then (-1, ⟨stored.erase header.key, added.pending⟩)
  else if sendResult ≠ 0 then (sendResult, ⟨stored.erase header.key, added.pending⟩)
  else (sendResult, ⟨stored.markSent header.key, added.pending⟩)

variable (m : RetryMonitor cfg) (maxRetries : ℤ) (os : List UInt8) (header : DmqHeader)
  (now sendResult : ℤ)

/-- Both ways to fail erase the packet and leave what `Add` did. -/
theorem sendWithRetry_fails
    (h : (m.pending.add header.seqNum header.id now).accepted = true → sendResult ≠ 0) :
    (m.sendWithRetry maxRetries os header now sendResult).1 ≠ 0 ∧
      (m.sendWithRetry maxRetries os header now sendResult).2 =
        ⟨(m.store.put maxRetries os header).erase header.key,
          (m.pending.add header.seqNum header.id now).pending⟩ := by
  unfold sendWithRetry
  dsimp only
  cases hacc : (m.pending.add header.seqNum header.id now).accepted with
  | false => exact ⟨by simp, rfl⟩
  | true =>
    have hr := h hacc
    simp [hr]

theorem sendWithRetry_succeeds
    (h : (m.pending.add header.seqNum header.id now).accepted = true) :
    (m.sendWithRetry maxRetries os header now 0).1 = 0 := by
  unfold sendWithRetry
  simp [h]

/-- If the call fails, both maps are what they were before. -/
def NoTrace : Prop :=
  (m.sendWithRetry maxRetries os header now sendResult).1 ≠ 0 →
    (∀ k, (m.sendWithRetry maxRetries os header now sendResult).2.store.find? k =
      m.store.find? k) ∧
    ∀ k, (m.sendWithRetry maxRetries os header now sendResult).2.pending.map.find? k =
      m.pending.map.find? k

/-- Storing and erasing a packet loses what was stored under its key before. -/
theorem erase_put (st : RetryStore) :
    (∀ k, ((st.put maxRetries os header).erase header.key).find? k = st.find? k) ↔
      st.find? header.key = none := by
  constructor
  · intro h
    rw [← h header.key]
    exact OrderedMap.find?_erase_self ..
  · intro h k
    unfold RetryStore.put
    rw [OrderedMap.erase_insert h]

/-- `Add` leaves the map alone exactly if it makes no entry. -/
theorem find?_add_eq_iff :
    (∀ k, (m.pending.add header.seqNum header.id now).pending.map.find? k =
        m.pending.map.find? k) ↔ ¬ m.pending.Admits header.seqNum header.id := by
  constructor
  · intro h hadm
    obtain ⟨hmap, -, -⟩ := Pending.add_of_admits hadm now
    have hnew := h (sendKey header.id header.seqNum)
    rw [hmap, OrderedMap.find?_insert_self, hadm.2] at hnew
    cases hnew
  · intro hadm k
    rw [(Pending.add_of_not_admits hadm now).1]

/-- A failed call leaves no trace if and only if it does not fail after `Add`
has made an entry, and no packet was stored under its key. -/
theorem no_trace_iff :
    m.NoTrace maxRetries os header now sendResult ↔
      (m.pending.Admits header.seqNum header.id → sendResult = 0) ∧
      (¬ m.pending.Admits header.seqNum header.id →
        (cfg.maxPending = 0 ∧ sendResult = 0) ∨ m.store.find? header.key = none) := by
  have haccepted : (m.pending.add header.seqNum header.id now).accepted = true ↔
      m.pending.Admits header.seqNum header.id ∨ cfg.maxPending = 0 := by
    by_cases hadm : m.pending.Admits header.seqNum header.id
    · simp [hadm, (Pending.add_of_admits hadm now).2.1]
    · simp [hadm, (Pending.add_of_not_admits hadm now).2.2]
  -- the call fails, or there is nothing to show
  by_cases hfail : (m.pending.add header.seqNum header.id now).accepted = true → sendResult ≠ 0
  · obtain ⟨hr, hm⟩ := m.sendWithRetry_fails maxRetries os header now sendResult hfail
    unfold NoTrace
    rw [hm]
    simp only [hr, ne_eq, not_false_eq_true, forall_const]
    rw [erase_put, m.find?_add_eq_iff header now]
    rw [haccepted] at hfail
    constructor
    · rintro ⟨hfree, hadm⟩
      exact ⟨fun h => absurd h hadm, fun _ => Or.inr hfree⟩
    · rintro ⟨hsend, hfree⟩
      have hadm : ¬ m.pending.Admits header.seqNum header.id :=
        fun h => hfail (Or.inl h) (hsend h)
      refine ⟨(hfree hadm).resolve_left ?_, hadm⟩
      rintro ⟨hcap, hzero⟩
      exact hfail (Or.inr hcap) hzero
  · obtain ⟨hacc, hzero⟩ : (m.pending.add header.seqNum header.id now).accepted = true ∧
        sendResult = 0 := by
      simpa using hfail
    subst hzero
    refine iff_of_true (fun h => absurd (m.sendWithRetry_succeeds maxRetries os header now hacc) h)
      ⟨fun _ => rfl, fun hadm => Or.inl ⟨?_, rfl⟩⟩
    exact (haccepted.mp hacc).resolve_left hadm

/-- The transport fails: the message stays pending although the call failed. -/
theorem trace_after_failed_send : ∃ m : RetryMonitor .default,
    m.store = OrderedMap.empty ∧ m.pending = .empty ∧
      (m.sendWithRetry 3 [42] (.make 1 7) 0 (-1)).1 = -1 ∧
      ((m.sendWithRetry 3 [42] (.make 1 7) 0 (-1)).2.pending.map.find? (sendKey 1 7)).isSome ∧
      ¬ m.NoTrace 3 [42] (.make 1 7) 0 (-1) := by
  refine ⟨⟨OrderedMap.empty, .empty⟩, rfl, rfl, by decide, by decide, fun h => ?_⟩
  have hsame := (h (by decide)).2 (sendKey 1 7)
  revert hsame
  decide

end RetryMonitor

end AsyncSqlite
