import AsyncSqlite.Remote.Retry

/-!
# AsyncSqlite.Remote.RetrySystem — a `RetryMonitor` on its `TransportMonitor`

Any number of `SendWithRetry` calls and of monitor calls, which run
`OnStatusChanged` for every status that they emit.

* A `SendWithRetry` call goes through `begin`, `add`, `send` and `finish`;
  between them it holds no lock. `sequential_call` says that without concurrent
  steps this is the function `RetryMonitor.sendWithRetry`.
* `OnStatusChanged` runs in the monitor call that emitted the status, which
  does not continue before it returns: `emit`, `handle`, then `readd`, `resend`
  or `giveUp`.
* Everything else that uses the monitor (acknowledgements that arrive, passes
  of `Process`, other users' `Add`) is a step `monitor`.
* **History**: `message` keeps the arguments of each call, `owner` the call
  whose packet is stored under a key, `decided` the transmissions that were
  decided, `closed` how they ended and `settled` the messages that
  `OnStatusChanged` has dropped because of a `SUCCESS` or a spent budget.
-/

namespace AsyncSqlite

/-- The arguments of `SendWithRetry`. -/
structure RetryMessage where
  header : DmqHeader
  payload : List UInt8
  deriving DecidableEq

/-- Where a call of `SendWithRetry` stands. -/
inductive SendPc
  | idle
  /-- about to call `m_monitor->Add` -/
  | stored
  /-- `Add` returned false -/
  | refused
  /-- about to call `m_transport->Send` -/
  | tracked
  | failed (result : ℤ)
  | sent
  | returned (result : ℤ)
  deriving DecidableEq

/-- Where `OnStatusChanged` stands in a call of the monitor. -/
inductive CallbackPc
  | idle
  | entered (r : StatusReport)
  /-- about to call `m_monitor->Add` for a retry -/
  | retrying (key : ℕ) (copy : RetryMessage) (owner : ℕ)
  /-- about to call `m_transport->Send` -/
  | resending (copy : RetryMessage) (owner : ℕ)
  /-- `Add` returned false -/
  | givingUp (key : ℕ)
  /-- about to call `m_monitor->Add` although the first send is not over -/
  | reregistering (header : DmqHeader)
  deriving DecidableEq

/-- Who decides and makes a transmission. -/
inductive Agent
  | send (j : ℕ)
  | callback (p : ℕ)
  deriving DecidableEq

/-- A transmission that was made, or dropped because `Add` refused it. -/
structure Transmission where
  agent : Agent
  owner : ℕ
  wire : Option RetryMessage
  deriving DecidableEq

structure RetrySys (cfg : MonitorConfig) where
  monitor : MonitorSys cfg
  store : RetryStore
  /-- calls of `SendWithRetry` so far -/
  begun : ℕ
  send : ℕ → SendPc
  callback : ℕ → CallbackPc
  message : ℕ → RetryMessage
  owner : ℕ → ℕ
  decided : List (Agent × ℕ)
  closed : List Transmission
  settled : List ℕ

/-- The steps; `now` and `result` are what `Clock::now()` and `Send` return. -/
inductive RetryLabel
  | monitor (l : MonitorLabel)
  | emit (p : ℕ)
  | handle (p : ℕ)
  | readd (p : ℕ) (now : ℤ)
  | resend (p : ℕ)
  | giveUp (p : ℕ)
  | begin (os : List UInt8) (header : DmqHeader)
  | add (j : ℕ) (now : ℤ)
  | send (j : ℕ) (result : ℤ)
  | finish (j : ℕ)

namespace RetrySys

variable {cfg : MonitorConfig}

def initial (cfg : MonitorConfig) : RetrySys cfg where
  monitor := .initial cfg
  store := OrderedMap.empty
  begun := 0
  send := fun _ => .idle
  callback := fun _ => .idle
  message := fun _ => ⟨.make 0 0, []⟩
  owner := fun _ => 0
  decided := []
  closed := []
  settled := []

/-- Monitor steps of their own: a status is emitted through `emit`, and a call
continues when `OnStatusChanged` has returned. -/
def monitorGuard (s : RetrySys cfg) : MonitorLabel → Prop
  | .fire _ => False
  | .pass p _ | .finish p => s.callback p = .idle
  | _ => True

def guard : RetryLabel → RetrySys cfg → Prop
  | .monitor l, s => MonitorSys.guard l s.monitor ∧ s.monitorGuard l
  | .emit p, s => s.monitor.emission p ≠ none ∧ s.callback p = .idle
  | .handle p, s => match s.callback p with
    | .entered _ => True
    | _ => False
  | .readd p _, s => match s.callback p with
    | .retrying .. | .reregistering _ => True
    | _ => False
  | .resend p, s => match s.callback p with
    | .resending .. => True
    | _ => False
  | .giveUp p, s => match s.callback p with
    | .givingUp _ => True
    | _ => False
  | .begin .., _ => True
  | .add j _, s => s.send j = .stored
  | .send j _, s => s.send j = .tracked
  | .finish j, s => match s.send j with
    | .refused | .failed _ | .sent => True
    | _ => False

def setCallback (s : RetrySys cfg) (p : ℕ) (pc : CallbackPc) : RetrySys cfg :=
  { s with callback := Function.update s.callback p pc }

def setSend (s : RetrySys cfg) (j : ℕ) (pc : SendPc) : RetrySys cfg :=
  { s with send := Function.update s.send j pc }

/-- `m_monitor->Add` with the fields of a header. -/
def addPending (s : RetrySys cfg) (header : DmqHeader) (now : ℤ) : RetrySys cfg :=
  { s with monitor := s.monitor.add header.seqNum header.id now }

/-- What it returns. -/
def addAccepted (s : RetrySys cfg) (header : DmqHeader) (now : ℤ) : Bool :=
  (s.monitor.pending.add header.seqNum header.id now).accepted

def close (s : RetrySys cfg) (o : Transmission) : RetrySys cfg :=
  { s with closed := s.closed ++ [o] }

/-- The status that call `p` emits goes to `OnStatusChanged`. -/
def emit (s : RetrySys cfg) (p : ℕ) : RetrySys cfg :=
  match s.monitor.emission p with
  | some r => { s.setCallback p (.entered r) with monitor := s.monitor.fire p }
  | none => s

/-- The locked section of `OnStatusChanged`. -/
def handle (s : RetrySys cfg) (p : ℕ) : RetrySys cfg :=
  match s.callback p with
  | .entered r =>
    match s.store.onStatus r with
    | (store, .done) =>
      { s.setCallback p .idle with
        store := store
        settled := if (s.store.find? r.key).isSome then s.settled ++ [s.owner r.key]
          else s.settled }
    | (store, .retry payload header) =>
      { s.setCallback p (.retrying r.key ⟨header, payload⟩ (s.owner r.key)) with
        store := store
        decided := s.decided ++ [(.callback p, s.owner r.key)] }
    | (store, .reregister header) =>
      { s.setCallback p (.reregistering header) with store := store }
  | _ => s

/-- `Add` in `OnStatusChanged`; its result matters for a retry only. -/
def readd (s : RetrySys cfg) (p : ℕ) (now : ℤ) : RetrySys cfg :=
  match s.callback p with
  | .retrying key copy owner =>
    if s.addAccepted copy.header now then
      (s.addPending copy.header now).setCallback p (.resending copy owner)
    else
      ((s.addPending copy.header now).setCallback p (.givingUp key)).close
        ⟨.callback p, owner, none⟩
  | .reregistering header => (s.addPending header now).setCallback p .idle
  | _ => s

/-- `Send` in `OnStatusChanged`; its result is ignored. -/
def resend (s : RetrySys cfg) (p : ℕ) : RetrySys cfg :=
  match s.callback p with
  | .resending copy owner =>
    (s.setCallback p .idle).close ⟨.callback p, owner, some copy⟩
  | _ => s

def giveUp (s : RetrySys cfg) (p : ℕ) : RetrySys cfg :=
  match s.callback p with
  | .givingUp key => { s.setCallback p .idle with store := s.store.erase key }
  | _ => s

/-- A new call stores its packet. -/
def begin (s : RetrySys cfg) (maxRetries : ℤ) (os : List UInt8) (header : DmqHeader) :
    RetrySys cfg :=
  { s.setSend s.begun .stored with
    store := s.store.put maxRetries os header
    begun := s.begun + 1
    message := Function.update s.message s.begun ⟨header, os⟩
    owner := Function.update s.owner header.key s.begun
    decided := s.decided ++ [(.send s.begun, s.begun)] }

def add (s : RetrySys cfg) (j : ℕ) (now : ℤ) : RetrySys cfg :=
  if s.addAccepted (s.message j).header now then
    (s.addPending (s.message j).header now).setSend j .tracked
  else
    ((s.addPending (s.message j).header now).setSend j .refused).close ⟨.send j, j, none⟩

def sendStep (s : RetrySys cfg) (j : ℕ) (result : ℤ) : RetrySys cfg :=
  (s.setSend j (if result ≠ 0 then .failed result else .sent)).close
    ⟨.send j, j, some (s.message j)⟩

/-- The last locked section of `SendWithRetry`. -/
def finish (s : RetrySys cfg) (j : ℕ) : RetrySys cfg :=
  match s.send j with
  | .refused =>
    { s.setSend j (.returned (-1)) with store := s.store.erase (s.message j).header.key }
  | .failed result =>
    { s.setSend j (.returned result) with store := s.store.erase (s.message j).header.key }
  | .sent =>
    { s.setSend j (.returned 0) with store := s.store.markSent (s.message j).header.key }
  | _ => s

def update (maxRetries : ℤ) : RetryLabel → RetrySys cfg → RetrySys cfg
  | .monitor l, s => { s with monitor := MonitorSys.update l s.monitor }
  | .emit p, s => s.emit p
  | .handle p, s => s.handle p
  | .readd p now, s => s.readd p now
  | .resend p, s => s.resend p
  | .giveUp p, s => s.giveUp p
  | .begin os header, s => s.begin maxRetries os header
  | .add j now, s => s.add j now
  | .send j result, s => s.sendStep j result
  | .finish j, s => s.finish j

end RetrySys

def retryLts (cfg : MonitorConfig) (maxRetries : ℤ) : Lts (RetrySys cfg) RetryLabel where
  init s := s = RetrySys.initial cfg
  guard := RetrySys.guard
  update := RetrySys.update maxRetries

namespace RetrySys

variable {cfg : MonitorConfig} {maxRetries : ℤ} {s : RetrySys cfg}

/-! ## What a step can do -/

theorem emit_eq {p : ℕ} (hg : guard (.emit p) s) :
    ∃ r, s.monitor.emission p = some r ∧ s.callback p = .idle ∧
      s.emit p = { s.setCallback p (.entered r) with monitor := s.monitor.fire p } := by
  obtain ⟨hsome, hidle⟩ := hg
  obtain ⟨r, hr⟩ := Option.ne_none_iff_exists'.mp hsome
  refine ⟨r, hr, hidle, ?_⟩
  unfold emit
  rw [hr]

theorem entered_of_guard {p : ℕ} (hg : guard (.handle p) s) :
    ∃ r, s.callback p = .entered r := by
  simp only [guard] at hg
  cases hc : s.callback p with
  | entered r => exact ⟨r, rfl⟩
  | idle | retrying | resending | givingUp | reregistering => simp [hc] at hg

theorem handle_cases {p : ℕ} {r : StatusReport} (hc : s.callback p = .entered r) :
    (s.store.find? r.key = none ∧ s.handle p = s.setCallback p .idle) ∨
    ∃ e, s.store.find? r.key = some e ∧
      (((r.status = .success ∨ e.attemptsRemaining ≤ 0) ∧
        s.handle p = { s.setCallback p .idle with
          store := s.store.erase r.key
          settled := s.settled ++ [s.owner r.key] }) ∨
      (0 < e.attemptsRemaining ∧
        s.handle p =
          { s.setCallback p (.retrying r.key ⟨e.header, e.packetData⟩ (s.owner r.key)) with
            store := s.store.insert r.key { e with attemptsRemaining := e.attemptsRemaining - 1 }
            decided := s.decided ++ [(.callback p, s.owner r.key)] }) ∨
      (e.isSent = false ∧ s.handle p = s.setCallback p (.reregistering e.header))) := by
  unfold handle
  rw [hc]
  rcases RetryStore.onStatus_cases s.store r with
    ⟨hnone, heq⟩ | ⟨e, he, ⟨hs, heq⟩ | ⟨-, hle, heq⟩ | ⟨-, hpos, -, heq⟩ | ⟨-, -, hns, heq⟩⟩
  · exact Or.inl ⟨hnone, by simp [heq, hnone, setCallback]⟩
  · exact Or.inr ⟨e, he, Or.inl ⟨Or.inl hs, by simp [heq, he, setCallback]⟩⟩
  · exact Or.inr ⟨e, he, Or.inl ⟨Or.inr hle, by simp [heq, he, setCallback]⟩⟩
  · exact Or.inr ⟨e, he, Or.inr (Or.inl ⟨hpos, by simp [heq, setCallback]⟩)⟩
  · exact Or.inr ⟨e, he, Or.inr (Or.inr ⟨hns, by simp [heq, setCallback]⟩)⟩

theorem readd_cases {p : ℕ} {now : ℤ} (hg : guard (.readd p now) s) :
    (∃ key copy owner, s.callback p = .retrying key copy owner ∧
      ((s.addAccepted copy.header now = true ∧ s.readd p now =
        (s.addPending copy.header now).setCallback p (.resending copy owner)) ∨
      s.readd p now = ((s.addPending copy.header now).setCallback p (.givingUp key)).close
        ⟨.callback p, owner, none⟩)) ∨
    ∃ header, s.callback p = .reregistering header ∧
      s.readd p now = (s.addPending header now).setCallback p .idle := by
  simp only [guard] at hg
  unfold readd
  cases hc : s.callback p with
  | retrying key copy owner =>
    refine Or.inl ⟨key, copy, owner, rfl, ?_⟩
    by_cases hacc : s.addAccepted copy.header now
    · exact Or.inl ⟨hacc, if_pos hacc⟩
    · exact Or.inr (if_neg hacc)
  | reregistering header => exact Or.inr ⟨header, rfl, rfl⟩
  | idle | entered | resending | givingUp => simp [hc] at hg

theorem resend_eq {p : ℕ} (hg : guard (.resend p) s) :
    ∃ copy owner, s.callback p = .resending copy owner ∧
      s.resend p = (s.setCallback p .idle).close ⟨.callback p, owner, some copy⟩ := by
  simp only [guard] at hg
  unfold resend
  cases hc : s.callback p with
  | resending copy owner => exact ⟨copy, owner, rfl, rfl⟩
  | idle | entered | retrying | givingUp | reregistering => simp [hc] at hg

theorem giveUp_eq {p : ℕ} (hg : guard (.giveUp p) s) :
    ∃ key, s.callback p = .givingUp key ∧
      s.giveUp p = { s.setCallback p .idle with store := s.store.erase key } := by
  simp only [guard] at hg
  unfold giveUp
  cases hc : s.callback p with
  | givingUp key => exact ⟨key, rfl, rfl⟩
  | idle | entered | retrying | resending | reregistering => simp [hc] at hg

theorem add_cases (s : RetrySys cfg) (j : ℕ) (now : ℤ) :
    (s.addAccepted (s.message j).header now = true ∧
      s.add j now = (s.addPending (s.message j).header now).setSend j .tracked) ∨
    s.add j now = ((s.addPending (s.message j).header now).setSend j .refused).close
      ⟨.send j, j, none⟩ := by
  unfold add
  by_cases hacc : s.addAccepted (s.message j).header now
  · exact Or.inl ⟨hacc, if_pos hacc⟩
  · exact Or.inr (if_neg hacc)

/-- A call that was not sent erases its packet, one that was marks it. -/
theorem finish_cases {j : ℕ} (hg : guard (.finish j) s) :
    (∃ result, (s.send j = .refused ∨ s.send j = .failed result) ∧
      s.finish j = { s.setSend j (.returned result) with
        store := s.store.erase (s.message j).header.key }) ∨
    (s.send j = .sent ∧ s.finish j = { s.setSend j (.returned 0) with
      store := s.store.markSent (s.message j).header.key }) := by
  simp only [guard] at hg
  unfold finish
  cases hc : s.send j with
  | refused => exact Or.inl ⟨-1, Or.inl rfl, rfl⟩
  | failed result => exact Or.inl ⟨result, Or.inr rfl, rfl⟩
  | sent => exact Or.inr ⟨rfl, rfl⟩
  | idle | stored | tracked | returned => simp [hc] at hg

instance (l : RetryLabel) (s : RetrySys cfg) :
    Decidable ((retryLts cfg maxRetries).guard l s) :=
  match l with
  | .monitor l =>
    have : Decidable (MonitorSys.guard l s.monitor) :=
      inferInstanceAs (Decidable ((monitorLts cfg).guard l s.monitor))
    have : Decidable (s.monitorGuard l) := match l with
      | .fire _ => isFalse id
      | .pass p _ | .finish p => inferInstanceAs (Decidable (s.callback p = .idle))
      | .add .. | .remove .. | .process => isTrue trivial
    inferInstanceAs (Decidable (_ ∧ _))
  | .emit p => inferInstanceAs (Decidable (s.monitor.emission p ≠ none ∧ s.callback p = .idle))
  | .handle p => match h : s.callback p with
    | .entered _ => isTrue (by simp [retryLts, guard, h])
    | .idle | .retrying .. | .resending .. | .givingUp _ | .reregistering _ =>
      isFalse (by simp [retryLts, guard, h])
  | .readd p _ => match h : s.callback p with
    | .retrying .. | .reregistering _ => isTrue (by simp [retryLts, guard, h])
    | .idle | .entered _ | .resending .. | .givingUp _ =>
      isFalse (by simp [retryLts, guard, h])
  | .resend p => match h : s.callback p with
    | .resending .. => isTrue (by simp [retryLts, guard, h])
    | .idle | .entered _ | .retrying .. | .givingUp _ | .reregistering _ =>
      isFalse (by simp [retryLts, guard, h])
  | .giveUp p => match h : s.callback p with
    | .givingUp _ => isTrue (by simp [retryLts, guard, h])
    | .idle | .entered _ | .retrying .. | .resending .. | .reregistering _ =>
      isFalse (by simp [retryLts, guard, h])
  | .begin .. => isTrue trivial
  | .add j _ => inferInstanceAs (Decidable (s.send j = .stored))
  | .send j _ => inferInstanceAs (Decidable (s.send j = .tracked))
  | .finish j => match h : s.send j with
    | .refused | .failed _ | .sent => isTrue (by simp [retryLts, guard, h])
    | .idle | .stored | .tracked | .returned _ => isFalse (by simp [retryLts, guard, h])

/-! ## A call by itself -/

theorem steps_finish {j : ℕ} (h : guard (.finish j) s) :
    (retryLts cfg maxRetries).Steps s (s.finish j) :=
  Lts.StepsWhen.single (M := retryLts cfg maxRetries) (l := .finish j) h trivial

/-- Without concurrent steps, a call is the function `sendWithRetry`. -/
theorem sequential_call (s : RetrySys cfg) (maxRetries : ℤ) (os : List UInt8)
    (header : DmqHeader) (now result : ℤ) :
    ∃ s', (retryLts cfg maxRetries).Steps s s' ∧
      (s'.send s.begun, (⟨s'.store, s'.monitor.pending⟩ : RetryMonitor cfg)) =
        Prod.map SendPc.returned id
          (RetryMonitor.sendWithRetry ⟨s.store, s.monitor.pending⟩ maxRetries os header now
            result) := by
  have hbegin : (retryLts cfg maxRetries).Steps s (s.begin maxRetries os header) :=
    Lts.StepsWhen.single (M := retryLts cfg maxRetries) (l := .begin os header) trivial trivial
  have hstored : (s.begin maxRetries os header).send s.begun = .stored := Function.update_self ..
  have hadd : (retryLts cfg maxRetries).Steps (s.begin maxRetries os header)
      ((s.begin maxRetries os header).add s.begun now) :=
    Lts.StepsWhen.single (M := retryLts cfg maxRetries) (l := .add s.begun now) hstored trivial
  -- `Add` is refused and the packet taken back, or the transport is called
  cases hacc : (s.monitor.pending.add header.seqNum header.id now).accepted with
  | false =>
    have hpc : ((s.begin maxRetries os header).add s.begun now).send s.begun = .refused := by
      simp [add, addAccepted, close, setSend, begin, hacc]
    refine ⟨_, (hbegin.trans hadd).trans (steps_finish (j := s.begun) (by simp [guard, hpc])), ?_⟩
    simp [finish, RetryMonitor.sendWithRetry, add, addAccepted, addPending, close, setSend,
      begin, MonitorSys.add, hacc]
  | true =>
    have hpc : ((s.begin maxRetries os header).add s.begun now).send s.begun = .tracked := by
      simp [add, addAccepted, setSend, begin, hacc]
    have hsend : (retryLts cfg maxRetries).Steps ((s.begin maxRetries os header).add s.begun now)
        (((s.begin maxRetries os header).add s.begun now).sendStep s.begun result) :=
      Lts.StepsWhen.single (M := retryLts cfg maxRetries) (l := .send s.begun result) hpc trivial
    by_cases hr : result = 0
    · subst hr
      have hpc' : (((s.begin maxRetries os header).add s.begun now).sendStep s.begun 0).send
          s.begun = .sent := by
        simp [sendStep, setSend, close]
      refine ⟨_, ((hbegin.trans hadd).trans hsend).trans
        (steps_finish (j := s.begun) (by simp [guard, hpc'])), ?_⟩
      simp [finish, RetryMonitor.sendWithRetry, sendStep, add, addAccepted, addPending,
        close, setSend, begin, MonitorSys.add, hacc]
    · have hpc' : (((s.begin maxRetries os header).add s.begun now).sendStep s.begun result).send
          s.begun = .failed result := by
        simp [sendStep, setSend, close, hr]
      refine ⟨_, ((hbegin.trans hadd).trans hsend).trans
        (steps_finish (j := s.begun) (by simp [guard, hpc'])), ?_⟩
      simp [finish, RetryMonitor.sendWithRetry, sendStep, add, addAccepted, addPending,
        close, setSend, begin, MonitorSys.add, hacc, hr]

end RetrySys

end AsyncSqlite
