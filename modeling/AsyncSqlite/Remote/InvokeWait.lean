import AsyncSqlite.Lts.Core
import AsyncSqlite.Remote.Channel

/-!
# AsyncSqlite.Remote.InvokeWait — waiting for the acknowledgement of one's own message

`NetworkEngine::RemoteInvokeWaitInternal` for any number of calls on one target:
the callers, the send lambdas on the network thread, and the status callbacks,
which run at any time with any status. A call from the network thread itself
only invokes the target. The target is in any state when the run begins.

* An emission of `OnSendStatus` is one callback step for each connected call. A
  callback may still run after its call returned.
* The send lambda takes two steps: the invocation of the target, and the section
  that records the sequence number, together with `GetError`.
* `assigned` is the number that the message of the call was sent with, which the
  code never asks for: it reads `GetLastSeqNum` whether or not one was assigned.
-/

namespace AsyncSqlite

/-! ## `InvokeWaitState` -/

structure InvokeWaitState where
  complete : Bool
  success : Bool
  seqSet : Bool
  expectedSeq : UInt16
  /-- the statuses received before `seqSet`, by number -/
  early : UInt16 → Option SendStatus

namespace InvokeWaitState

def initial : InvokeWaitState := ⟨false, false, false, 0, fun _ => none⟩

/-- The locked section of the status callback. -/
def onStatus (st : InvokeWaitState) (seq : UInt16) (status : SendStatus) : InvokeWaitState :=
  if st.seqSet = false then { st with early := Function.update st.early seq (some status) }
  else if st.complete = false ∧ seq = st.expectedSeq then
    { st with complete := true, success := decide (status = .success) }
  else st

/-- The locked section of the send lambda. -/
def recordSeq (st : InvokeWaitState) (lastSeqNum : UInt16) : InvokeWaitState :=
  match st.early lastSeqNum with
  | some status => ⟨true, decide (status = .success), true, lastSeqNum, fun _ => none⟩
  | none => ⟨st.complete, st.success, true, lastSeqNum, fun _ => none⟩

end InvokeWaitState

/-! ## Calls -/

/-- Where the caller is. -/
inductive RemoteWaitPc
  | idle
  /-- the callback is connected -/
  | connected
  /-- in `AsyncInvoke` -/
  | invoking
  /-- in `wait_for` -/
  | waiting
  /-- about to return `success` without a wait -/
  | failed
  | returned (result : Bool)
  deriving DecidableEq

/-- Where the send lambda is. -/
inductive LambdaPc
  | none
  | posted
  /-- the target was invoked -/
  | sent
  | done (retVal : Bool)
  | threw
  deriving DecidableEq

structure RemoteWait where
  caller : RemoteWaitPc
  lambda : LambdaPc
  remoteId : DelegateRemoteId
  state : InvokeWaitState
  /-- the number of the message of this call, if one was assigned -/
  assigned : Option UInt16
  /-- what the callback was called with for the remote id -/
  heard : List (UInt16 × SendStatus)
  /-- the part of it between the send and the recording of the number -/
  afterSend : List (UInt16 × SendStatus)

namespace RemoteWait

def initial : RemoteWait := ⟨.idle, .none, 0, .initial, none, [], []⟩

/-- The status callback runs. -/
def onStatus (c : RemoteWait) (id : DelegateRemoteId) (seq : UInt16) (status : SendStatus) :
    RemoteWait :=
  if id ≠ c.remoteId then c
  else
    { c with
      state := c.state.onStatus seq status
      heard := c.heard ++ [(seq, status)]
      afterSend := if c.lambda = .sent then c.afterSend ++ [(seq, status)] else c.afterSend }

end RemoteWait

structure RemoteWaitSys where
  target : DelegateRemote
  /-- the call whose lambda is between its two steps -/
  network : Option ℕ
  calls : ℕ → RemoteWait

inductive RemoteWaitLabel
  /-- the state is created and the callback connected -/
  | start (i : ℕ)
  | post (i : ℕ)
  /-- `AsyncInvoke` returns no value, the lambda was not queued -/
  | refuse (i : ℕ)
  /-- the lambda invokes the target -/
  | send (i : ℕ) (call : RemoteCall)
  /-- the lambda records the number and returns -/
  | record (i : ℕ)
  /-- `AsyncInvoke` returns what the lambda returned, if it did -/
  | resume (i : ℕ)
  /-- `wait_for` ends, by `complete` or by the timeout -/
  | wake (i : ℕ)
  | finish (i : ℕ)
  | status (i : ℕ) (id : DelegateRemoteId) (seq : UInt16) (status : SendStatus)
  /-- a call from the network thread -/
  | inline (call : RemoteCall)

namespace RemoteWaitSys

variable {s : RemoteWaitSys} {i j : ℕ}

def setCall (s : RemoteWaitSys) (i : ℕ) (c : RemoteWait) : RemoteWaitSys :=
  { s with calls := Function.update s.calls i c }

def guard : RemoteWaitLabel → RemoteWaitSys → Prop
  | .start i, s => (s.calls i).caller = .idle
  | .post i, s => (s.calls i).caller = .connected
  | .refuse i, s => (s.calls i).caller = .connected
  | .send i _, s => s.network = none ∧ (s.calls i).lambda = .posted
  | .record i, s => s.network = some i
  | .resume i, s => (s.calls i).caller = .invoking ∧
      ((s.calls i).lambda = .threw ∨ (s.calls i).state.seqSet = true)
  | .wake i, s => (s.calls i).caller = .waiting
  | .finish i, s => (s.calls i).caller = .failed
  | .status i _ _ _, s => (s.calls i).caller ≠ .idle
  | .inline _, s => s.network = none

def start (s : RemoteWaitSys) (i : ℕ) : RemoteWaitSys :=
  s.setCall i { RemoteWait.initial with caller := .connected, remoteId := s.target.id }

def post (s : RemoteWaitSys) (i : ℕ) : RemoteWaitSys :=
  s.setCall i { s.calls i with caller := .invoking, lambda := .posted }

def send (s : RemoteWaitSys) (i : ℕ) (call : RemoteCall) : RemoteWaitSys :=
  let r := s.target.invoke call
  { target := r.delegate
    network := if r.threw then none else some i
    calls := Function.update s.calls i { s.calls i with
      lambda := if r.threw then .threw else .sent
      assigned := r.handed.map fun p => p.1.seqNum } }

def record (s : RemoteWaitSys) (i : ℕ) : RemoteWaitSys :=
  let r := s.target.getError
  { target := r.2
    network := none
    calls := Function.update s.calls i { s.calls i with
      lambda := .done (decide (r.1 = .success))
      state := (s.calls i).state.recordSeq s.target.lastSeqNum } }

def resume (s : RemoteWaitSys) (i : ℕ) : RemoteWaitSys :=
  s.setCall i { s.calls i with
    caller := if (s.calls i).lambda = .done true then .waiting else .failed }

def finish (s : RemoteWaitSys) (i : ℕ) : RemoteWaitSys :=
  s.setCall i { s.calls i with caller := .returned (s.calls i).state.success }

def update : RemoteWaitLabel → RemoteWaitSys → RemoteWaitSys
  | .start i, s => s.start i
  | .post i, s => s.post i
  | .refuse i, s => s.setCall i { s.calls i with caller := .failed }
  | .send i call, s => s.send i call
  | .record i, s => s.record i
  | .resume i, s => s.resume i
  | .wake i, s => s.finish i
  | .finish i, s => s.finish i
  | .status i id seq status, s => s.setCall i ((s.calls i).onStatus id seq status)
  | .inline call, s => { s with target := (s.target.invoke call).delegate.getError.2 }

end RemoteWaitSys

/-- `target` is what earlier calls left. -/
def remoteWaitLts (target : DelegateRemote) : Lts RemoteWaitSys RemoteWaitLabel where
  init s := s = ⟨target, none, fun _ => .initial⟩
  guard := RemoteWaitSys.guard
  update := RemoteWaitSys.update

namespace RemoteWaitSys

variable {s : RemoteWaitSys} {i j : ℕ}

/-- The steps that do not go wrong. A call whose send was not given a number
must not find the `SUCCESS` of an older message, neither when the number of that
one is recorded nor as long as the call lasts; and the `SUCCESS` of the message
itself must not have been replaced by a `TIMEOUT` when its number is recorded. -/
def Clean : RemoteWaitLabel → RemoteWaitSys → Prop
  | .record i, s =>
      ((s.calls i).assigned = none →
        (s.calls i).state.early s.target.lastSeqNum ≠ some .success) ∧
      ((s.calls i).assigned = some s.target.lastSeqNum →
        (s.target.lastSeqNum, .success) ∈ (s.calls i).afterSend →
          (s.calls i).state.early s.target.lastSeqNum ≠ some .timeout)
  | .status i id seq .success, s => ¬ (id = (s.calls i).remoteId ∧
      (s.calls i).assigned = none ∧ (s.calls i).state.seqSet = true ∧
        (s.calls i).state.complete = false ∧ seq = (s.calls i).state.expectedSeq ∧
          ∀ b, (s.calls i).caller ≠ .returned b)
  | _, _ => True

/-! ## Invariant -/

structure CallInv (s : RemoteWaitSys) (i : ℕ) (c : RemoteWait) : Prop where
  begin : c.caller = .idle ∨ c.caller = .connected → c.lambda = .none
  sent : c.lambda = .sent ↔ s.network = some i
  busy : c.lambda = .posted ∨ c.lambda = .sent → c.caller = .invoking
  unsent : c.lambda = .none ∨ c.lambda = .posted → c.assigned = none ∧ c.afterSend = []
  done : c.state.seqSet = true ↔ ∃ r, c.lambda = .done r
  unset : c.state.seqSet = false → c.state.complete = false
  /-- before the recording, the number is still what the target sent last -/
  number : ∀ n, c.lambda = .sent → c.assigned = some n → s.target.lastSeqNum = n
  expected : ∀ n, c.state.seqSet = true → c.assigned = some n → c.state.expectedSeq = n
  early : ∀ n st, c.state.early n = some st → (n, st) ∈ c.heard
  success : c.state.success = true → c.state.complete = true ∧
    ((∀ b, c.caller ≠ .returned b) → c.assigned = some c.state.expectedSeq ∧
      (c.state.expectedSeq, .success) ∈ c.heard)
  result : c.caller = .returned true → c.state.complete = true ∧
    c.assigned = some c.state.expectedSeq ∧ (c.state.expectedSeq, .success) ∈ c.heard
  /-- a `SUCCESS` that came before the recording left a status in the buffer, and is
  then in the result -/
  kept : ∀ n, c.assigned = some n → (n, .success) ∈ c.afterSend →
    (c.lambda = .sent → c.state.early n ≠ none) ∧
      (c.state.seqSet = true → c.state.complete = true ∧ c.state.success = true ∧
        c.caller ≠ .returned false)

variable {s' : RemoteWaitSys} {c : RemoteWait}

/-- Without a recorded number the call is open. -/
theorem CallInv.unset_of_lambda (h : CallInv s i c) (hl : ∀ r, c.lambda ≠ .done r) :
    c.state.seqSet = false := by
  refine Bool.eq_false_of_not_eq_true fun hset => ?_
  obtain ⟨r, hr⟩ := h.done.mp hset
  exact hl r hr

theorem CallInv.success_ne (h : CallInv s i c) (hopen : c.state.complete = false) :
    c.state.success ≠ true := by
  intro hs
  have hcomplete := (h.success hs).1
  rw [hopen] at hcomplete
  cases hcomplete

theorem CallInv.returned_ne (h : CallInv s i c) (hopen : c.state.complete = false) :
    c.caller ≠ .returned true := by
  intro hr
  have hcomplete := (h.result hr).1
  rw [hopen] at hcomplete
  cases hcomplete

theorem callInv_initial (hnet : s.network ≠ some i) : CallInv s i .initial := by
  constructor <;> simp [RemoteWait.initial, InvokeWaitState.initial, hnet]

/-- What a call needs of the rest of the system. -/
theorem CallInv.frame (h : CallInv s j c) (hnet : s'.network = some j ↔ s.network = some j)
    (hnum : s.network = some j → s'.target.lastSeqNum = s.target.lastSeqNum) :
    CallInv s' j c where
  begin := h.begin
  sent := h.sent.trans hnet.symm
  busy := h.busy
  unsent := h.unsent
  done := h.done
  unset := h.unset
  number n hl hn := by
    rw [hnum (h.sent.mp hl)]
    exact h.number n hl hn
  expected := h.expected
  early := h.early
  success := h.success
  result := h.result
  kept := h.kept

/-- A step of one call leaves the others alone. -/
theorem inv_update (h : ∀ j, CallInv s j (s.calls j))
    (hcalls : s'.calls = Function.update s.calls i c) (hi : CallInv s' i c)
    (hframe : ∀ j, j ≠ i → (s'.network = some j ↔ s.network = some j) ∧
      (s.network = some j → s'.target.lastSeqNum = s.target.lastSeqNum)) (j : ℕ) :
    CallInv s' j (s'.calls j) := by
  rw [hcalls]
  by_cases hj : j = i
  · subst hj
    rw [Function.update_self]
    exact hi
  · rw [Function.update_of_ne hj]
    exact (h j).frame (hframe j hj).1 (hframe j hj).2

/-- A step of one call on its own fields. -/
theorem inv_setCall (h : ∀ j, CallInv s j (s.calls j)) (hi : CallInv s i c) (j : ℕ) :
    CallInv (s.setCall i c) j ((s.setCall i c).calls j) := by
  have hcalls : (s.setCall i c).calls = Function.update s.calls i c := rfl
  exact inv_update h hcalls (hi.frame Iff.rfl fun _ => rfl) (fun _ _ => ⟨Iff.rfl, fun _ => rfl⟩) j

/-! ## Steps -/

theorem CallInv.start (h : CallInv s i c) (hidle : c.caller = .idle) (id : DelegateRemoteId) :
    CallInv s i { RemoteWait.initial with caller := .connected, remoteId := id } := by
  have hnet : s.network ≠ some i := by
    intro hnet
    have hbusy := h.busy (Or.inr (h.sent.mpr hnet))
    rw [hidle] at hbusy
    cases hbusy
  constructor <;> simp [RemoteWait.initial, InvokeWaitState.initial, hnet]

theorem CallInv.post (h : CallInv s i c) (hc : c.caller = .connected) :
    CallInv s i { c with caller := .invoking, lambda := .posted } := by
  have hnone : c.lambda = .none := h.begin (Or.inr hc)
  have hnet : s.network ≠ some i := by
    intro hnet
    rw [h.sent.mpr hnet] at hnone
    cases hnone
  have hunset : c.state.seqSet = false := by
    refine h.unset_of_lambda fun r => ?_
    rw [hnone]
    exact nofun
  constructor
  case begin => rintro (h | h) <;> cases h
  case sent => simp [hnet]
  case busy => exact fun _ => rfl
  case unsent => exact fun _ => h.unsent (Or.inl hnone)
  case done => simp [hunset]
  case unset => exact h.unset
  case number => exact nofun
  case expected => simp [hunset]
  case early => exact h.early
  case success => exact fun hs => (h.success_ne (h.unset hunset) hs).elim
  case result => exact nofun
  case kept => simp [hunset]

/-- The caller goes on; its lambda is not under way. -/
theorem CallInv.move (h : CallInv s i c) {pc : RemoteWaitPc}
    (hcaller : ∀ b, c.caller ≠ .returned b)
    (hlambda : c.lambda ≠ .posted ∧ c.lambda ≠ .sent) (hlate : pc ≠ .idle ∧ pc ≠ .connected)
    (hresult : ∀ b, pc = .returned b → b = c.state.success) :
    CallInv s i { c with caller := pc } where
  begin hpc := (hpc.elim hlate.1 hlate.2).elim
  sent := h.sent
  busy hl := (hl.elim hlambda.1 hlambda.2).elim
  unsent := h.unsent
  done := h.done
  unset := h.unset
  number := h.number
  expected := h.expected
  early := h.early
  success hs := ⟨(h.success hs).1, fun _ => (h.success hs).2 hcaller⟩
  result hr := by
    obtain ⟨hcomplete, hown⟩ := h.success (hresult true hr).symm
    exact ⟨hcomplete, hown hcaller⟩
  kept n hn hmem := by
    refine ⟨(h.kept n hn hmem).1, fun hset => ?_⟩
    obtain ⟨hcomplete, hsuccess, -⟩ := (h.kept n hn hmem).2 hset
    refine ⟨hcomplete, hsuccess, fun hpc => ?_⟩
    have hfalse := hresult false hpc
    rw [hsuccess] at hfalse
    cases hfalse

/-- The lambda was not queued. -/
theorem CallInv.refuse (h : CallInv s i c) (hcaller : c.caller = .connected) :
    CallInv s i { c with caller := .failed } := by
  have hnone := h.begin (Or.inr hcaller)
  refine h.move ?_ ?_ ⟨nofun, nofun⟩ nofun
  · rw [hcaller]
    exact nofun
  · rw [hnone]
    exact ⟨nofun, nofun⟩

theorem CallInv.resume (h : CallInv s i c) (hcaller : c.caller = .invoking)
    (hover : c.lambda = .threw ∨ c.state.seqSet = true) :
    CallInv s i { c with caller := if c.lambda = .done true then .waiting else .failed } := by
  have hlambda : c.lambda ≠ .posted ∧ c.lambda ≠ .sent := by
    rcases hover with hl | hset
    · rw [hl]
      exact ⟨nofun, nofun⟩
    · obtain ⟨r, hr⟩ := h.done.mp hset
      rw [hr]
      exact ⟨nofun, nofun⟩
  refine h.move ?_ hlambda ?_ ?_
  · rw [hcaller]
    exact nofun
  · split <;> exact ⟨nofun, nofun⟩
  · intro b hb
    split at hb <;> cases hb

/-- `return state->success` -/
theorem CallInv.finish (h : CallInv s i c) (hcaller : c.caller = .waiting ∨ c.caller = .failed) :
    CallInv s i { c with caller := .returned c.state.success } := by
  have hinvoking : c.caller ≠ .invoking := by
    rcases hcaller with hc | hc <;> rw [hc] <;> exact nofun
  have hreturned (b : Bool) : c.caller ≠ .returned b := by
    rcases hcaller with hc | hc <;> rw [hc] <;> exact nofun
  have hlambda : c.lambda ≠ .posted ∧ c.lambda ≠ .sent :=
    ⟨fun hl => hinvoking (h.busy (Or.inl hl)), fun hl => hinvoking (h.busy (Or.inr hl))⟩
  refine h.move hreturned hlambda ⟨nofun, nofun⟩ fun b hb => ?_
  cases hb
  rfl

/-- The invocation of the target. -/
theorem CallInv.send (h : CallInv s i c) (hl : c.lambda = .posted) (call : RemoteCall) :
    CallInv (s.send i call) i { c with
      lambda := if (s.target.invoke call).threw then .threw else .sent
      assigned := (s.target.invoke call).handed.map fun p => p.1.seqNum } := by
  have hcaller : c.caller = .invoking := h.busy (Or.inl hl)
  have hafter : c.afterSend = [] := (h.unsent (Or.inr hl)).2
  have hunset : c.state.seqSet = false := by
    refine h.unset_of_lambda fun r => ?_
    rw [hl]
    exact nofun
  constructor
  case begin =>
    rintro (h | h) <;> rw [hcaller] at h <;> cases h
  case sent =>
    show _ ↔ (if _ then _ else _) = _
    split <;> simp
  case busy => exact fun _ => hcaller
  case unsent =>
    intro hl'
    split at hl' <;> rcases hl' with hl' | hl' <;> cases hl'
  case done =>
    split <;> simp [hunset]
  case unset => exact h.unset
  case number =>
    intro n _ hn
    exact DelegateRemote.lastSeqNum_of_handed hn
  case expected => simp [hunset]
  case early => exact h.early
  case success => exact fun hs => (h.success_ne (h.unset hunset) hs).elim
  case result =>
    intro hr
    rw [hcaller] at hr
    cases hr
  case kept =>
    intro n _ hmem
    rw [hafter] at hmem
    cases hmem

/-- The recording of the number. -/
theorem CallInv.record (h : CallInv s i c) (hnet : s.network = some i)
    (hnone : c.assigned = none → c.state.early s.target.lastSeqNum ≠ some .success)
    (hown : c.assigned = some s.target.lastSeqNum →
      (s.target.lastSeqNum, .success) ∈ c.afterSend →
        c.state.early s.target.lastSeqNum ≠ some .timeout)
    (retVal : Bool) : CallInv (s.record i) i { c with
      lambda := .done retVal
      state := c.state.recordSeq s.target.lastSeqNum } := by
  have hl : c.lambda = .sent := h.sent.mpr hnet
  have hcaller : c.caller = .invoking := h.busy (Or.inr hl)
  have hunset : c.state.seqSet = false := by
    refine h.unset_of_lambda fun r => ?_
    rw [hl]
    exact nofun
  have hsuccess := h.success_ne (h.unset hunset)
  have hset : (c.state.recordSeq s.target.lastSeqNum).seqSet = true := by
    unfold InvokeWaitState.recordSeq
    split <;> rfl
  have hseq : (c.state.recordSeq s.target.lastSeqNum).expectedSeq = s.target.lastSeqNum := by
    unfold InvokeWaitState.recordSeq
    split <;> rfl
  constructor
  case begin =>
    rintro (h | h) <;> rw [hcaller] at h <;> cases h
  case sent => exact ⟨nofun, nofun⟩
  case busy => exact fun _ => hcaller
  case unsent => rintro (h | h) <;> cases h
  case done => exact ⟨fun _ => ⟨retVal, rfl⟩, fun _ => hset⟩
  case unset =>
    intro h
    rw [hset] at h
    cases h
  case number => exact nofun
  case expected =>
    intro n _ hn
    exact hseq.trans (h.number n hl hn)
  case early =>
    intro n st hn
    unfold InvokeWaitState.recordSeq at hn
    split at hn <;> cases hn
  case success =>
    show (c.state.recordSeq s.target.lastSeqNum).success = true →
      (c.state.recordSeq s.target.lastSeqNum).complete = true ∧ _
    rw [hseq]
    unfold InvokeWaitState.recordSeq
    cases hearly : c.state.early s.target.lastSeqNum with
    | none => exact fun hs => (hsuccess hs).elim
    | some status =>
      -- the number is that of the message, so the buffered status is too
      intro hs
      have hst : status = .success := of_decide_eq_true hs
      subst hst
      cases hn : c.assigned with
      | none => exact (hnone hn hearly).elim
      | some n =>
        rw [h.number n hl hn] at hearly ⊢
        exact ⟨rfl, fun _ => ⟨rfl, h.early n _ hearly⟩⟩
  case result =>
    intro hr
    rw [hcaller] at hr
    cases hr
  case kept =>
    intro n hn hmem
    refine ⟨nofun, fun _ => ?_⟩
    have hkept := (h.kept n hn hmem).1 hl
    have hnumber := h.number n hl hn
    subst hnumber
    rw [hcaller]
    unfold InvokeWaitState.recordSeq
    cases hearly : c.state.early s.target.lastSeqNum with
    | none => exact (hkept hearly).elim
    | some status =>
      cases status with
      | success => exact ⟨rfl, rfl, nofun⟩
      | timeout => exact (hown hn hmem hearly).elim

/-- A status callback before the number is recorded. -/
theorem CallInv.buffer (h : CallInv s i c) (hunset : c.state.seqSet = false) (seq : UInt16)
    (status : SendStatus) :
    CallInv s i { c with
      state := { c.state with early := Function.update c.state.early seq (some status) }
      heard := c.heard ++ [(seq, status)]
      afterSend := if c.lambda = .sent then c.afterSend ++ [(seq, status)] else c.afterSend } where
  begin := h.begin
  sent := h.sent
  busy := h.busy
  unsent hl := by
    refine ⟨(h.unsent hl).1, ?_⟩
    dsimp only at hl ⊢
    rw [if_neg (by rcases hl with hl | hl <;> rw [hl] <;> exact nofun)]
    exact (h.unsent hl).2
  done := h.done
  unset := h.unset
  number := h.number
  expected := h.expected
  early n st hn := by
    dsimp only at hn ⊢
    by_cases hseq : n = seq
    · subst hseq
      rw [Function.update_self] at hn
      simp [Option.some.inj hn]
    · rw [Function.update_of_ne hseq] at hn
      exact List.mem_append_left _ (h.early n st hn)
  success hs := (h.success_ne (h.unset hunset) hs).elim
  result hr := (h.returned_ne (h.unset hunset) hr).elim
  kept n hn hmem := by
    dsimp only at hmem ⊢
    refine ⟨fun hl => ?_, fun hset => ?_⟩
    · rw [if_pos hl] at hmem
      by_cases hseq : n = seq
      · rw [hseq, Function.update_self]
        exact nofun
      · rw [Function.update_of_ne hseq]
        -- a status of another number is kept in its own slot
        have hold : (n, .success) ∈ c.afterSend := by simpa [hseq] using hmem
        exact (h.kept n hn hold).1 hl
    · rw [hunset] at hset
      cases hset

/-- A status callback after the number is recorded. -/
theorem CallInv.settle (h : CallInv s i c) (hset : c.state.seqSet = true)
    {seq : UInt16} {status : SendStatus}
    (hlate : status = .success → ¬ (c.assigned = none ∧ c.state.complete = false ∧
      seq = c.state.expectedSeq ∧ ∀ b, c.caller ≠ .returned b)) :
    CallInv s i { c with
      state := c.state.onStatus seq status
      heard := c.heard ++ [(seq, status)] } := by
  -- only the first status of the recorded number changes anything
  have hwas : c.state.onStatus seq status = c.state ∨ c.state.complete = false ∧
      seq = c.state.expectedSeq ∧ c.state.onStatus seq status =
        { c.state with complete := true, success := decide (status = .success) } := by
    unfold InvokeWaitState.onStatus
    rw [if_neg (by simp [hset])]
    split
    next hsettle => exact Or.inr ⟨hsettle.1, hsettle.2, rfl⟩
    next => exact Or.inl rfl
  rcases hwas with heq | ⟨hcomplete, hseq, heq⟩
  · rw [heq]
    exact { h with
      early := fun n st hn => List.mem_append_left _ (h.early n st hn)
      success := fun hs => by
        refine ⟨(h.success hs).1, fun hc => ?_⟩
        obtain ⟨hassigned, hheard⟩ := (h.success hs).2 hc
        exact ⟨hassigned, List.mem_append_left _ hheard⟩
      result := fun hr => by
        obtain ⟨hcomplete, hassigned, hheard⟩ := h.result hr
        exact ⟨hcomplete, hassigned, List.mem_append_left _ hheard⟩ }
  · rw [heq]
    exact { h with
      unset := fun hunset => by
        rw [hset] at hunset
        cases hunset
      early := fun n st hn => List.mem_append_left _ (h.early n st hn)
      success := fun hs => by
        have hst : status = .success := of_decide_eq_true hs
        subst hst
        refine ⟨rfl, fun hc => ?_⟩
        cases hn : c.assigned with
        -- a message without a number: the status is that of another message
        | none => exact (hlate rfl ⟨hn, hcomplete, hseq, hc⟩).elim
        | some n =>
          rw [h.expected n hset hn] at hseq ⊢
          subst hseq
          exact ⟨rfl, by simp⟩
      result := fun hr => (h.returned_ne hcomplete hr).elim
      kept := fun n hn hmem => by
        refine ⟨(h.kept n hn hmem).1, fun _ => ?_⟩
        exact (h.success_ne hcomplete ((h.kept n hn hmem).2 hset).2.1).elim }

/-- A status callback. -/
theorem CallInv.onStatus (h : CallInv s i c) {id : DelegateRemoteId} {seq : UInt16}
    {status : SendStatus}
    (hlate : status = .success → ¬ (id = c.remoteId ∧ c.assigned = none ∧ c.state.seqSet = true ∧
      c.state.complete = false ∧ seq = c.state.expectedSeq ∧ ∀ b, c.caller ≠ .returned b)) :
    CallInv s i (c.onStatus id seq status) := by
  unfold RemoteWait.onStatus
  by_cases hid : id = c.remoteId
  · rw [if_neg (not_not.mpr hid)]
    cases hset : c.state.seqSet with
    | false =>
      rw [InvokeWaitState.onStatus, if_pos hset]
      exact h.buffer hset seq status
    | true =>
      have hsent : c.lambda ≠ .sent := by
        obtain ⟨r, hr⟩ := h.done.mp hset
        rw [hr]
        exact nofun
      rw [if_neg hsent]
      exact h.settle hset fun hst hbad => hlate hst ⟨hid, hbad.1, hset, hbad.2⟩
  · rw [if_pos hid]
    exact h

variable {target : DelegateRemote}

/-- The invariant of a run whose steps do not go wrong. -/
theorem callInv_of_reachable (h : (remoteWaitLts target).ReachableWhen Clean s) (j : ℕ) :
    CallInv s j (s.calls j) := by
  revert j
  refine h.induct (P := fun s => ∀ j, CallInv s j (s.calls j)) ?_ ?_
  · rintro s rfl j
    exact callInv_initial nofun
  intro l s _ hg hclean ih
  cases l with
  | start i => exact inv_setCall ih ((ih i).start hg _)
  | post i => exact inv_setCall ih ((ih i).post hg)
  | refuse i => exact inv_setCall ih ((ih i).refuse hg)
  | send i call =>
    obtain ⟨hnet, hl⟩ := hg
    refine inv_update ih rfl ((ih i).send hl call) fun j hj => ?_
    -- the network thread was free, so no other call is between its two steps
    rw [hnet]
    refine ⟨⟨fun hj' => ?_, nofun⟩, nofun⟩
    change (if _ then _ else _) = _ at hj'
    split at hj'
    · cases hj'
    · exact (hj (Option.some.inj hj').symm).elim
  | record i =>
    have hnet : s.network = some i := hg
    refine inv_update ih rfl ((ih i).record hnet hclean.1 hclean.2 _) fun j hj => ?_
    have hother : s.network ≠ some j := by
      rw [hnet]
      exact fun h => hj (Option.some.inj h).symm
    exact ⟨⟨nofun, fun h => (hother h).elim⟩, fun h => (hother h).elim⟩
  | resume i => exact inv_setCall ih ((ih i).resume hg.1 hg.2)
  | wake i => exact inv_setCall ih ((ih i).finish (Or.inl hg))
  | finish i => exact inv_setCall ih ((ih i).finish (Or.inr hg))
  | status i id seq status =>
    refine inv_setCall ih ((ih i).onStatus ?_)
    rintro rfl
    exact hclean
  | inline call =>
    intro j
    have hnet : s.network = none := hg
    refine (ih j).frame Iff.rfl fun hj => ?_
    rw [hnet] at hj
    cases hj

/-- A call returns `true` only if `SUCCESS` was emitted for the number that its
own message was sent with, and a `SUCCESS` for this number that came before it
was recorded is the result of the call. The steps that go wrong are left out. -/
theorem reports_own_ack (h : (remoteWaitLts target).ReachableWhen Clean s) (i : ℕ) :
    ((s.calls i).caller = .returned true →
      ∃ n, (s.calls i).assigned = some n ∧ (n, .success) ∈ (s.calls i).heard) ∧
    (∀ n, (s.calls i).assigned = some n → (n, .success) ∈ (s.calls i).afterSend →
      (s.calls i).state.seqSet = true →
        (s.calls i).state.success = true ∧ (s.calls i).caller ≠ .returned false) := by
  have hi := callInv_of_reachable h i
  constructor
  · intro hreturned
    obtain ⟨-, hassigned, hheard⟩ := hi.result hreturned
    exact ⟨_, hassigned, hheard⟩
  · intro n hn hmem hset
    exact ((hi.kept n hn hmem).2 hset).2

/-! ## Runs -/

instance (l : RemoteWaitLabel) (s : RemoteWaitSys) :
    Decidable ((remoteWaitLts target).guard l s) := by
  dsimp only [remoteWaitLts]
  induction l using RemoteWaitLabel.casesOn <;> dsimp only [guard] <;> infer_instance

instance (l : RemoteWaitLabel) (s : RemoteWaitSys) : Decidable (Clean l s) := by
  induction l using RemoteWaitLabel.casesOn with
  | status i id seq status =>
    induction status using SendStatus.casesOn <;> dsimp only [Clean] <;> infer_instance
  | _ => dsimp only [Clean]; infer_instance

/-- The vector is sent with this number. -/
def sendVector (l : List UInt8) (seqNum : UInt16) : RemoteCall :=
  ⟨[byteVector l], seqNum, .returned 0⟩

/-- A message is acknowledged before its number is recorded. -/
def fastAckRun : List RemoteWaitLabel :=
  [.start 0, .post 0, .send 0 (sendVector [7] 7), .status 0 1 7 .success, .record 0, .resume 0,
    .wake 0]

theorem reports_own_ack_run : ∃ s : RemoteWaitSys,
    (s.calls 0).caller = .returned true ∧
      ∃ n, (s.calls 0).assigned = some n ∧ (n, .success) ∈ (s.calls 0).heard := by
  obtain ⟨s, hs, hp⟩ := (remoteWaitLts (DelegateRemote.channel 1 true)).execWhen_reachable Clean rfl
    fastAckRun (fun s => (s.calls 0).caller = .returned true) (by decide +kernel)
  have hreturned := of_decide_eq_true hp
  exact ⟨s, hreturned, (reports_own_ack hs 0).1 hreturned⟩

/-- The first call waits in vain. The second one fails in the serializer, and the
acknowledgement of the first message comes in between. -/
def lateAckRun : List RemoteWaitLabel :=
  [.start 0, .post 0, .send 0 (sendVector [7] 7), .record 0, .resume 0, .wake 0,
    .start 1, .post 1, .status 1 1 7 .success, .send 1 (sendVector (List.replicate 65 0) 8),
    .record 1, .resume 1, .finish 1]

/-- A call returns `true` whose message was never sent. -/
theorem reports_foreign_ack : ∃ s : RemoteWaitSys,
    (remoteWaitLts (DelegateRemote.channel 1 true)).Reachable s ∧
      (s.calls 1).caller = .returned true ∧ (s.calls 1).assigned = none := by
  obtain ⟨s, hs, hp⟩ := (remoteWaitLts (DelegateRemote.channel 1 true)).execWhen_reachable
    Lts.always rfl lateAckRun
    (fun s => (s.calls 1).caller = .returned true ∧ (s.calls 1).assigned = none) (by decide +kernel)
  exact ⟨s, hs, of_decide_eq_true hp⟩

end RemoteWaitSys

end AsyncSqlite
