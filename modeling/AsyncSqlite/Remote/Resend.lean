import AsyncSqlite.Remote.RetrySystem

/-!
# AsyncSqlite.Remote.Resend — how often and what is sent

Every transmission is decided in a locked section: the first one when
`SendWithRetry` stores the packet, every other one when `OnStatusChanged` spends
an attempt. `StoreInv` counts decisions against `attemptsRemaining`;
`FlightInv` follows each decision until it is sent or dropped, with the copy
that was made when it was decided.

The transmission itself happens outside the lock, so a `SUCCESS` can be handled
between a decision and its transmission. Nothing is decided afterwards.
-/

namespace AsyncSqlite

namespace RetrySys

variable {cfg : MonitorConfig} {maxRetries : ℤ} {s s' : RetrySys cfg}

/-- Transmissions decided for message `j`. -/
def decisions (s : RetrySys cfg) (j : ℕ) : ℕ := s.decided.countP fun d => d.2 = j

/-- Calls of the physical `Send` for message `j`. -/
def sends (s : RetrySys cfg) (j : ℕ) : ℕ :=
  s.closed.countP fun o => o.owner = j ∧ o.wire.isSome

theorem decisions_eq (h : s'.decided = s.decided) : s'.decisions = s.decisions := by
  unfold decisions
  rw [h]

/-- One more decision counts for its own message. -/
theorem decisions_append {a : Agent} {owner : ℕ} (h : s'.decided = s.decided ++ [(a, owner)])
    (j : ℕ) : s'.decisions j = s.decisions j + if owner = j then 1 else 0 := by
  unfold decisions
  rw [h, List.countP_append]
  simp

/-! ## The store -/

structure StoreInv (maxRetries : ℤ) (s : RetrySys cfg) : Prop where
  /-- a stored packet is that of the call that owns the key -/
  stored : ∀ k e, s.store.find? k = some e → k = e.header.key ∧ s.owner k < s.begun ∧
    s.message (s.owner k) = ⟨e.header, e.packetData⟩
  /-- decisions and attempts left add up -/
  budget : ∀ k e, s.store.find? k = some e →
    (s.decisions (s.owner k) : ℤ) + e.attemptsRemaining = 1 + maxRetries ∧
      (e.attemptsRemaining < 0 → s.decisions (s.owner k) = 1)
  spent : ∀ j, s.decisions j ≤ 1 + maxRetries.toNat
  fresh : ∀ j, s.begun ≤ j → s.decisions j = 0
  /-- a settled message is stored no more -/
  settled : ∀ j ∈ s.settled, j < s.begun ∧ ∀ k, (s.store.find? k).isSome → s.owner k ≠ j

theorem StoreInv.initial : StoreInv maxRetries (initial cfg) := by
  constructor
  · intro k e h
    cases h
  · intro k e h
    cases h
  · exact fun j => Nat.zero_le _
  · exact fun j _ => rfl
  · exact fun j h => absurd h List.not_mem_nil

/-- Steps that leave the store and the decisions alone. -/
theorem StoreInv.congr (h : StoreInv maxRetries s) (hstore : s'.store = s.store)
    (hbegun : s'.begun = s.begun) (hmessage : s'.message = s.message)
    (howner : s'.owner = s.owner) (hdecided : s'.decided = s.decided)
    (hsettled : s'.settled = s.settled) : StoreInv maxRetries s' := by
  have hdec := decisions_eq hdecided
  obtain ⟨hst, hbud, hsp, hfr, hse⟩ := h
  constructor
  · rw [hstore, hbegun, hmessage, howner]
    exact hst
  · rw [hstore, howner, hdec]
    exact hbud
  · rw [hdec]
    exact hsp
  · rw [hbegun, hdec]
    exact hfr
  · rw [hsettled, hbegun, hstore, howner]
    exact hse

/-- A message is stored under one key only. -/
theorem StoreInv.key_unique (h : StoreInv maxRetries s) {k k' : ℕ}
    (hk : (s.store.find? k).isSome) (hk' : (s.store.find? k').isSome)
    (ho : s.owner k = s.owner k') : k = k' := by
  obtain ⟨e, he⟩ := Option.isSome_iff_exists.mp hk
  obtain ⟨e', he'⟩ := Option.isSome_iff_exists.mp hk'
  obtain ⟨hkey, -, hmsg⟩ := h.stored k e he
  obtain ⟨hkey', -, hmsg'⟩ := h.stored k' e' he'
  rw [ho, hmsg'] at hmsg
  rw [hkey, hkey', (RetryMessage.mk.inj hmsg).1]

/-- A packet is erased, possibly because its message is settled. -/
theorem StoreInv.erase (h : StoreInv maxRetries s) {k : ℕ}
    (hstore : s'.store = s.store.erase k) (hbegun : s'.begun = s.begun)
    (hmessage : s'.message = s.message) (howner : s'.owner = s.owner)
    (hdecided : s'.decided = s.decided)
    (hsettled : ∀ j ∈ s'.settled, j ∈ s.settled ∨ j = s.owner k ∧ (s.store.find? k).isSome) :
    StoreInv maxRetries s' := by
  have hdec := decisions_eq hdecided
  have hfind : ∀ k' e, s'.store.find? k' = some e → k' ≠ k ∧ s.store.find? k' = some e := by
    intro k' e he
    rw [hstore, OrderedMap.find?_erase] at he
    split_ifs at he with hk
    exact ⟨hk, he⟩
  constructor
  · intro k' e he
    rw [hbegun, hmessage, howner]
    exact h.stored k' e (hfind k' e he).2
  · intro k' e he
    rw [howner, hdec]
    exact h.budget k' e (hfind k' e he).2
  · rw [hdec]
    exact h.spent
  · rw [hbegun, hdec]
    exact h.fresh
  · intro j hj
    rw [hbegun, howner]
    rcases hsettled j hj with hold | ⟨rfl, hsome⟩
    · refine ⟨(h.settled j hold).1, fun k' hk' => ?_⟩
      obtain ⟨e, he⟩ := Option.isSome_iff_exists.mp hk'
      exact (h.settled j hold).2 k' (by simp [(hfind k' e he).2])
    · obtain ⟨e, he⟩ := Option.isSome_iff_exists.mp hsome
      refine ⟨(h.stored k e he).2.1, fun k' hk' ho => ?_⟩
      obtain ⟨e', he'⟩ := Option.isSome_iff_exists.mp hk'
      -- its message was stored under this key alone
      obtain ⟨hne, hfind'⟩ := hfind k' e' he'
      exact hne (h.key_unique (by simp [hfind']) hsome ho)

/-- An attempt is spent on a retry. -/
theorem StoreInv.retry (h : StoreInv maxRetries s) {k : ℕ} {e : RetryEntry} {a : Agent}
    (hfind : s.store.find? k = some e) (hpos : 0 < e.attemptsRemaining)
    (hstore : s'.store =
      s.store.insert k { e with attemptsRemaining := e.attemptsRemaining - 1 })
    (hbegun : s'.begun = s.begun) (hmessage : s'.message = s.message)
    (howner : s'.owner = s.owner) (hdecided : s'.decided = s.decided ++ [(a, s.owner k)])
    (hsettled : s'.settled = s.settled) : StoreInv maxRetries s' := by
  have hdec := decisions_append hdecided
  have hsome : ∀ k', (s'.store.find? k').isSome → (s.store.find? k').isSome := by
    intro k' hk'
    rw [hstore, OrderedMap.find?_insert] at hk'
    split_ifs at hk' with hkk
    · rw [hkk, hfind]
      rfl
    · exact hk'
  constructor
  · intro k' e' he'
    rw [hbegun, hmessage, howner]
    rw [hstore, OrderedMap.find?_insert] at he'
    split_ifs at he' with hk
    · cases he'
      rw [hk]
      exact h.stored k e hfind
    · exact h.stored k' e' he'
  · intro k' e' he'
    rw [howner, hdec]
    have hk' := hsome k' (by simp [he'])
    rw [hstore, OrderedMap.find?_insert] at he'
    split_ifs at he' with hk
    · cases he'
      have hbud := h.budget k e hfind
      rw [hk, if_pos rfl]
      refine ⟨?_, fun hneg => ?_⟩
      · push_cast
        have := hbud.1
        omega
      · dsimp only at hneg
        omega
    · have hne : s.owner k ≠ s.owner k' :=
        fun ho => hk (h.key_unique (by simp [hfind]) hk' ho).symm
      rw [if_neg hne]
      exact h.budget k' e' he'
  · intro j
    rw [hdec]
    split_ifs with hj
    · -- the attempt that is spent was left
      have hbud := (h.budget k e hfind).1
      rw [hj] at hbud
      omega
    · exact h.spent j
  · intro j hj
    rw [hbegun] at hj
    have hlt := (h.stored k e hfind).2.1
    rw [hdec, if_neg (by omega), h.fresh j hj]
  · intro j hj
    rw [hsettled] at hj
    rw [hbegun, howner]
    exact ⟨(h.settled j hj).1, fun k' hk' => (h.settled j hj).2 k' (hsome k' hk')⟩

theorem StoreInv.begin (h : StoreInv maxRetries s) (os : List UInt8) (header : DmqHeader) :
    StoreInv maxRetries (s.begin maxRetries os header) := by
  have hdec : ∀ j, (s.begin maxRetries os header).decisions j =
      s.decisions j + if s.begun = j then 1 else 0 := decisions_append rfl
  -- the new call has a number of its own, so every other account stays
  have hzero := h.fresh s.begun le_rfl
  have hfind : ∀ k, (s.begin maxRetries os header).store.find? k =
      if k = header.key then some ⟨os, header, maxRetries, false⟩ else s.store.find? k :=
    fun k => OrderedMap.find?_insert ..
  have howner : ∀ k, k ≠ header.key → (s.begin maxRetries os header).owner k = s.owner k :=
    fun k hk => Function.update_of_ne hk ..
  have hself : (s.begin maxRetries os header).owner header.key = s.begun :=
    Function.update_self ..
  have hold : ∀ k e, s.store.find? k = some e → s.owner k ≠ s.begun := by
    intro k e he
    exact ne_of_lt (h.stored k e he).2.1
  constructor
  · intro k e he
    rw [hfind] at he
    split_ifs at he with hk
    · cases he
      rw [hk, hself]
      exact ⟨rfl, Nat.lt_succ_self _, Function.update_self ..⟩
    · obtain ⟨hkey, hlt, hmsg⟩ := h.stored k e he
      rw [howner k hk]
      exact ⟨hkey, hlt.trans (Nat.lt_succ_self _),
        (Function.update_of_ne (ne_of_lt hlt) ..).trans hmsg⟩
  · intro k e he
    rw [hdec]
    rw [hfind] at he
    split_ifs at he with hk
    · cases he
      rw [hk, hself, hzero, if_pos rfl]
      exact ⟨by simp, fun _ => rfl⟩
    · rw [howner k hk, if_neg (hold k e he).symm]
      exact h.budget k e he
  · intro j
    rw [hdec]
    split_ifs with hj
    · rw [← hj, hzero]
      omega
    · exact h.spent j
  · intro j hj
    have hlt : s.begun < j := hj
    rw [hdec, if_neg (ne_of_lt hlt), h.fresh j hlt.le]
  · intro j hj
    obtain ⟨hlt, hgone⟩ := h.settled j hj
    refine ⟨hlt.trans (Nat.lt_succ_self _), fun k hk => ?_⟩
    by_cases hkey : k = header.key
    · rw [hkey, hself]
      exact (ne_of_lt hlt).symm
    · rw [howner k hkey]
      rw [hfind, if_neg hkey] at hk
      exact hgone k hk

theorem StoreInv.markSent (h : StoreInv maxRetries s) {k : ℕ}
    (hstore : s'.store = s.store.markSent k) (hbegun : s'.begun = s.begun)
    (hmessage : s'.message = s.message) (howner : s'.owner = s.owner)
    (hdecided : s'.decided = s.decided) (hsettled : s'.settled = s.settled) :
    StoreInv maxRetries s' := by
  have hdec := decisions_eq hdecided
  -- only the flag of an entry changes
  have hfind : ∀ k' e, s'.store.find? k' = some e → ∃ e', s.store.find? k' = some e' ∧
      e.header = e'.header ∧ e.packetData = e'.packetData ∧
      e.attemptsRemaining = e'.attemptsRemaining := by
    intro k' e he
    rw [hstore, RetryStore.find?_markSent] at he
    obtain ⟨e', he', rfl⟩ := Option.map_eq_some_iff.mp he
    refine ⟨e', he', ?_⟩
    split_ifs <;> exact ⟨rfl, rfl, rfl⟩
  constructor
  · intro k' e he
    obtain ⟨e', he', hhd, hpd, -⟩ := hfind k' e he
    rw [hbegun, hmessage, howner, hhd, hpd]
    exact h.stored k' e' he'
  · intro k' e he
    obtain ⟨e', he', -, -, hat⟩ := hfind k' e he
    rw [howner, hdec, hat]
    exact h.budget k' e' he'
  · rw [hdec]
    exact h.spent
  · rw [hbegun, hdec]
    exact h.fresh
  · rw [hsettled, hbegun, howner]
    intro j hj
    refine ⟨(h.settled j hj).1, fun k' hk' => ?_⟩
    obtain ⟨e, he⟩ := Option.isSome_iff_exists.mp hk'
    obtain ⟨e', he', -⟩ := hfind k' e he
    exact (h.settled j hj).2 k' (by simp [he'])

/-! ## Transmissions in progress -/

/-- The decision that a call of `SendWithRetry` has still to act on. -/
def SendPc.decision (j : ℕ) : SendPc → List (Agent × ℕ)
  | .stored | .tracked => [(.send j, j)]
  | _ => []

def CallbackPc.decision (p : ℕ) : CallbackPc → List (Agent × ℕ)
  | .retrying _ _ owner | .resending _ owner => [(.callback p, owner)]
  | _ => []

/-- The decisions that wait for their transmission, agent by agent. -/
def waiting (s : RetrySys cfg) : Agent → List (Agent × ℕ)
  | .send j => SendPc.decision j (s.send j)
  | .callback p => CallbackPc.decision p (s.callback p)

/-- The copy that a callback made when it decided. -/
def CallbackPc.copy : CallbackPc → Option (RetryMessage × ℕ)
  | .retrying _ copy owner | .resending copy owner => some (copy, owner)
  | _ => none

def Transmission.decision (o : Transmission) : Agent × ℕ := (o.agent, o.owner)

structure FlightInv (s : RetrySys cfg) : Prop where
  fresh : ∀ j, s.begun ≤ j → s.send j = .idle
  /-- agent by agent, what was decided has ended or waits -/
  custody : ClassFifo Prod.fst s.decided (s.closed.map Transmission.decision) s.waiting
  copies : ∀ p copy owner, CallbackPc.copy (s.callback p) = some (copy, owner) →
    owner < s.begun ∧ copy = s.message owner
  identical : ∀ o ∈ s.closed, o.owner < s.begun ∧ ∀ w, o.wire = some w → w = s.message o.owner

theorem FlightInv.initial : FlightInv (initial cfg) := by
  constructor
  · exact fun j _ => rfl
  · exact ClassFifo.nil fun a => by cases a <;> rfl
  · intro p copy owner h
    cases h
  · exact fun o h => absurd h List.not_mem_nil

theorem FlightInv.lt_begun (h : FlightInv s) {j : ℕ} (hj : s.send j ≠ .idle) : j < s.begun := by
  by_contra hge
  exact hj (h.fresh j (not_lt.mp hge))

/-- A callback that moves changes what waits for itself alone. -/
theorem waiting_callback {p : ℕ} {pc : CallbackPc}
    (hcall : s'.callback = Function.update s.callback p pc) (hsend : s'.send = s.send)
    (a : Agent) :
    s'.waiting a = if a = .callback p then CallbackPc.decision p pc else s.waiting a := by
  cases a with
  | send j => rw [waiting, waiting, hsend, if_neg nofun]
  | callback q =>
    rw [waiting, waiting, hcall]
    by_cases hq : q = p
    · rw [hq, Function.update_self, if_pos rfl]
    · rw [Function.update_of_ne hq, if_neg (by simpa using hq)]

/-- The copies that the callbacks hold, after one of them has moved. -/
theorem FlightInv.copies_update (h : FlightInv s) {p : ℕ} {pc : CallbackPc}
    (hcall : s'.callback = Function.update s.callback p pc)
    (hcopy : ∀ copy owner, CallbackPc.copy pc = some (copy, owner) →
      owner < s.begun ∧ copy = s.message owner) {q owner : ℕ} {copy : RetryMessage}
    (hc : CallbackPc.copy (s'.callback q) = some (copy, owner)) :
    owner < s.begun ∧ copy = s.message owner := by
  rw [hcall] at hc
  by_cases hq : q = p
  · rw [hq, Function.update_self] at hc
    exact hcopy copy owner hc
  · rw [Function.update_of_ne hq] at hc
    exact h.copies q copy owner hc

/-- A callback moves on without deciding or sending anything. -/
theorem FlightInv.callback (h : FlightInv s) {p : ℕ} {pc : CallbackPc}
    (hdec : CallbackPc.decision p pc = CallbackPc.decision p (s.callback p))
    (hcopy : ∀ c, CallbackPc.copy pc = some c → CallbackPc.copy (s.callback p) = some c)
    (hcall : s'.callback = Function.update s.callback p pc) (hsend : s'.send = s.send)
    (hbegun : s'.begun = s.begun) (hmessage : s'.message = s.message)
    (hdecided : s'.decided = s.decided) (hclosed : s'.closed = s.closed) : FlightInv s' := by
  constructor
  · rw [hbegun, hsend]
    exact h.fresh
  · rw [hdecided, hclosed]
    refine ⟨fun a => ?_⟩
    rw [h.custody.log a, waiting_callback hcall hsend]
    split_ifs with ha
    · rw [ha, hdec]
      rfl
    · rfl
  · intro q copy owner hc
    rw [hbegun, hmessage]
    exact h.copies_update hcall (fun c o hpc => h.copies p c o (hcopy _ hpc)) hc
  · rw [hclosed, hbegun, hmessage]
    exact h.identical

/-- A callback without a decision moves to where it has none. -/
theorem FlightInv.quiet (h : FlightInv s) {p : ℕ} {pc : CallbackPc}
    (hold : CallbackPc.decision p (s.callback p) = [])
    (hnew : CallbackPc.decision p pc = [] ∧ CallbackPc.copy pc = none)
    (hcall : s'.callback = Function.update s.callback p pc) (hsend : s'.send = s.send)
    (hbegun : s'.begun = s.begun) (hmessage : s'.message = s.message)
    (hdecided : s'.decided = s.decided) (hclosed : s'.closed = s.closed) : FlightInv s' := by
  refine h.callback (hnew.1.trans hold.symm) (fun c hc => ?_) hcall hsend hbegun hmessage hdecided
    hclosed
  rw [hnew.2] at hc
  cases hc

/-- A callback decides to retry. -/
theorem FlightInv.retry (h : FlightInv s) {p owner : ℕ} {pc : CallbackPc} {copy : RetryMessage}
    (hnone : CallbackPc.decision p (s.callback p) = [])
    (hdec : CallbackPc.decision p pc = [(.callback p, owner)])
    (hcopy : CallbackPc.copy pc = some (copy, owner))
    (hmsg : owner < s.begun ∧ copy = s.message owner)
    (hcall : s'.callback = Function.update s.callback p pc) (hsend : s'.send = s.send)
    (hbegun : s'.begun = s.begun) (hmessage : s'.message = s.message)
    (hdecided : s'.decided = s.decided ++ [(.callback p, owner)])
    (hclosed : s'.closed = s.closed) : FlightInv s' := by
  constructor
  · rw [hbegun, hsend]
    exact h.fresh
  · rw [hdecided, hclosed]
    refine h.custody.push _ fun a => ?_
    rw [ofClass_singleton, waiting_callback hcall hsend]
    by_cases ha : a = .callback p
    · have hwait : s.waiting a = [] := by
        rw [ha]
        exact hnone
      rw [if_pos ha, if_pos ha.symm, hdec, hwait, List.nil_append]
    · rw [if_neg ha, if_neg (Ne.symm ha), List.append_nil]
  · intro q c o hc
    rw [hbegun, hmessage]
    refine h.copies_update hcall (fun c o hpc => ?_) hc
    rw [hcopy] at hpc
    cases hpc
    exact hmsg
  · rw [hclosed, hbegun, hmessage]
    exact h.identical

/-- A callback acts on its decision. -/
theorem FlightInv.close (h : FlightInv s) {p owner : ℕ} {pc : CallbackPc} {copy : RetryMessage}
    {wire : Option RetryMessage} (hcopy : CallbackPc.copy (s.callback p) = some (copy, owner))
    (hdec : CallbackPc.decision p (s.callback p) = [(.callback p, owner)])
    (hpc : CallbackPc.decision p pc = [] ∧ CallbackPc.copy pc = none)
    (hwire : ∀ w, wire = some w → w = copy)
    (hcall : s'.callback = Function.update s.callback p pc) (hsend : s'.send = s.send)
    (hbegun : s'.begun = s.begun) (hmessage : s'.message = s.message)
    (hdecided : s'.decided = s.decided)
    (hclosed : s'.closed = s.closed ++ [⟨.callback p, owner, wire⟩]) : FlightInv s' := by
  obtain ⟨hlt, hmsg⟩ := h.copies p copy owner hcopy
  constructor
  · rw [hbegun, hsend]
    exact h.fresh
  · rw [hdecided, hclosed, List.map_append]
    refine h.custody.remove _ fun a => ?_
    rw [List.map_singleton, ofClass_singleton, waiting_callback hcall hsend]
    have hagent : (Transmission.decision ⟨.callback p, owner, wire⟩).1 = .callback p := rfl
    by_cases ha : a = .callback p
    · have hwait : s.waiting a = [(.callback p, owner)] := by
        rw [ha]
        exact hdec
      rw [if_pos ha, if_pos (hagent.trans ha.symm), hpc.1, hwait]
      rfl
    · rw [if_neg ha, if_neg (fun heq => ha (heq.symm.trans hagent)), List.nil_append]
  · intro q c o hc
    rw [hbegun, hmessage]
    refine h.copies_update hcall (fun c o hcopied => ?_) hc
    rw [hpc.2] at hcopied
    cases hcopied
  · rw [hclosed, hbegun, hmessage]
    intro o ho
    rcases List.mem_append.mp ho with ho | ho
    · exact h.identical o ho
    · rw [List.mem_singleton.mp ho]
      exact ⟨hlt, fun w hw => (hwire w hw).trans hmsg⟩

/-- A call of `SendWithRetry` moves on; if it acts on its decision, it sends its
own message or nothing. -/
theorem FlightInv.send (h : FlightInv s) {j : ℕ} {pc : SendPc} (out : List Transmission)
    (hj : s.send j ≠ .idle)
    (hdec : SendPc.decision j (s.send j) = out.map Transmission.decision ++ SendPc.decision j pc)
    (hout : ∀ o ∈ out, o.agent = .send j ∧ o.owner = j ∧ ∀ w, o.wire = some w → w = s.message j)
    (hcall : s'.callback = s.callback) (hsend : s'.send = Function.update s.send j pc)
    (hbegun : s'.begun = s.begun) (hmessage : s'.message = s.message)
    (hdecided : s'.decided = s.decided) (hclosed : s'.closed = s.closed ++ out) :
    FlightInv s' := by
  have hlt := h.lt_begun hj
  constructor
  · rw [hbegun, hsend]
    intro i hi
    rw [Function.update_of_ne (by omega)]
    exact h.fresh i hi
  · rw [hdecided, hclosed, List.map_append]
    refine h.custody.remove _ fun a => ?_
    -- what is sent is closed on the account of this call alone
    have hself : ofClass Prod.fst (.send j) (out.map Transmission.decision) =
        out.map Transmission.decision := by
      refine List.filter_eq_self.mpr fun d hd => ?_
      obtain ⟨o, ho, rfl⟩ := List.mem_map.mp hd
      exact decide_eq_true (hout o ho).1
    have hother : ∀ b, b ≠ .send j → ofClass Prod.fst b (out.map Transmission.decision) = [] := by
      intro b hb
      refine List.filter_eq_nil_iff.mpr fun d hd => ?_
      obtain ⟨o, ho, rfl⟩ := List.mem_map.mp hd
      rw [decide_eq_true_eq]
      exact fun heq => hb (heq.symm.trans (hout o ho).1)
    cases a with
    | callback q => rw [waiting, waiting, hcall, hother (.callback q) nofun, List.nil_append]
    | send i =>
      rw [waiting, waiting, hsend]
      by_cases hi : i = j
      · subst hi
        rw [Function.update_self, hself, hdec]
      · rw [Function.update_of_ne hi, hother _ (by simpa using hi), List.nil_append]
  · rw [hbegun, hmessage, hcall]
    exact h.copies
  · rw [hclosed, hbegun, hmessage]
    intro o ho
    rcases List.mem_append.mp ho with ho | ho
    · exact h.identical o ho
    · obtain ⟨-, howner, hwire⟩ := hout o ho
      rw [howner]
      exact ⟨hlt, hwire⟩

theorem FlightInv.begin (h : FlightInv s) (os : List UInt8) (header : DmqHeader) :
    FlightInv (s.begin maxRetries os header) := by
  have hidle := h.fresh s.begun le_rfl
  have hmessage : ∀ j, j < s.begun →
      (s.begin maxRetries os header).message j = s.message j :=
    fun j hj => Function.update_of_ne (ne_of_lt hj) ..
  constructor
  · intro j hj
    have hlt : s.begun < j := hj
    exact (Function.update_of_ne (ne_of_gt hlt) ..).trans (h.fresh j hlt.le)
  · refine h.custody.push _ fun a => ?_
    rw [ofClass_singleton]
    cases a with
    | callback q => rw [if_neg nofun, List.append_nil]; rfl
    | send i =>
      show SendPc.decision i (Function.update s.send s.begun .stored i) =
        SendPc.decision i (s.send i) ++ _
      by_cases hi : i = s.begun
      · subst hi
        rw [Function.update_self, hidle, if_pos rfl]
        rfl
      · rw [Function.update_of_ne hi, if_neg (by simpa using Ne.symm hi), List.append_nil]
  · intro p copy owner hc
    obtain ⟨hlt, hmsg⟩ := h.copies p copy owner hc
    exact ⟨hlt.trans (Nat.lt_succ_self _), hmsg.trans (hmessage owner hlt).symm⟩
  · intro o ho
    obtain ⟨hlt, hwire⟩ := h.identical o ho
    exact ⟨hlt.trans (Nat.lt_succ_self _), fun w hw => (hwire w hw).trans (hmessage _ hlt).symm⟩

/-! ## Every step -/

theorem StoreInv.handle (h : StoreInv maxRetries s) {p : ℕ} (hg : guard (.handle p) s) :
    StoreInv maxRetries (s.handle p) := by
  obtain ⟨r, hc⟩ := entered_of_guard hg
  rcases handle_cases hc with ⟨-, heq⟩ | ⟨e, he, ⟨-, heq⟩ | ⟨hpos, heq⟩ | ⟨-, heq⟩⟩
  · rw [heq]
    exact h.congr rfl rfl rfl rfl rfl rfl
  · rw [heq]
    refine h.erase (k := r.key) rfl rfl rfl rfl rfl fun j hj => ?_
    rcases List.mem_append.mp hj with hj | hj
    · exact Or.inl hj
    · exact Or.inr ⟨List.mem_singleton.mp hj, by simp [he]⟩
  · rw [heq]
    exact h.retry he hpos rfl rfl rfl rfl rfl rfl
  · rw [heq]
    exact h.congr rfl rfl rfl rfl rfl rfl

theorem StoreInv.step {l : RetryLabel} (h : StoreInv maxRetries s) (hg : guard l s) :
    StoreInv maxRetries (update maxRetries l s) := by
  cases l with
  | monitor l => exact h.congr rfl rfl rfl rfl rfl rfl
  | emit p =>
    obtain ⟨r, -, -, heq⟩ := emit_eq hg
    show StoreInv maxRetries (s.emit p)
    rw [heq]
    exact h.congr rfl rfl rfl rfl rfl rfl
  | handle p => exact h.handle hg
  | readd p now =>
    show StoreInv maxRetries (s.readd p now)
    rcases readd_cases hg with ⟨key, copy, owner, -, ⟨-, heq⟩ | heq⟩ | ⟨header, -, heq⟩ <;>
      rw [heq] <;> exact h.congr rfl rfl rfl rfl rfl rfl
  | resend p =>
    obtain ⟨copy, owner, -, heq⟩ := resend_eq hg
    show StoreInv maxRetries (s.resend p)
    rw [heq]
    exact h.congr rfl rfl rfl rfl rfl rfl
  | giveUp p =>
    obtain ⟨key, -, heq⟩ := giveUp_eq hg
    show StoreInv maxRetries (s.giveUp p)
    rw [heq]
    exact h.erase rfl rfl rfl rfl rfl fun _ hj => Or.inl hj
  | begin os header => exact h.begin os header
  | add j now =>
    show StoreInv maxRetries (s.add j now)
    rcases add_cases s j now with ⟨-, heq⟩ | heq <;> rw [heq] <;>
      exact h.congr rfl rfl rfl rfl rfl rfl
  | send j result => exact h.congr rfl rfl rfl rfl rfl rfl
  | finish j =>
    show StoreInv maxRetries (s.finish j)
    rcases finish_cases hg with ⟨result, -, heq⟩ | ⟨-, heq⟩
    · rw [heq]
      exact h.erase rfl rfl rfl rfl rfl fun _ hj => Or.inl hj
    · rw [heq]
      exact h.markSent rfl rfl rfl rfl rfl rfl

theorem FlightInv.handle (h : FlightInv s) (hstore : StoreInv maxRetries s) {p : ℕ}
    (hg : guard (.handle p) s) : FlightInv (s.handle p) := by
  obtain ⟨r, hc⟩ := entered_of_guard hg
  have hnone : CallbackPc.decision p (s.callback p) = [] := by
    rw [hc]
    rfl
  rcases handle_cases hc with ⟨-, heq⟩ | ⟨e, he, ⟨-, heq⟩ | ⟨-, heq⟩ | ⟨-, heq⟩⟩
  · rw [heq]
    exact h.quiet hnone ⟨rfl, rfl⟩ rfl rfl rfl rfl rfl rfl
  · rw [heq]
    exact h.quiet hnone ⟨rfl, rfl⟩ rfl rfl rfl rfl rfl rfl
  · rw [heq]
    obtain ⟨-, hlt, hmsg⟩ := hstore.stored r.key e he
    exact h.retry hnone rfl rfl ⟨hlt, hmsg.symm⟩ rfl rfl rfl rfl rfl rfl
  · rw [heq]
    exact h.quiet hnone ⟨rfl, rfl⟩ rfl rfl rfl rfl rfl rfl

theorem FlightInv.readd (h : FlightInv s) {p : ℕ} {now : ℤ} (hg : guard (.readd p now) s) :
    FlightInv (s.readd p now) := by
  rcases readd_cases hg with ⟨key, copy, owner, hc, hacc⟩ | ⟨header, hc, heq⟩
  · have hcopy : CallbackPc.copy (s.callback p) = some (copy, owner) := by rw [hc]; rfl
    have hdec : CallbackPc.decision p (s.callback p) = [(.callback p, owner)] := by rw [hc]; rfl
    rcases hacc with ⟨-, heq⟩ | heq
    · rw [heq]
      refine h.callback ?_ ?_ rfl rfl rfl rfl rfl rfl
      · exact hdec.symm
      · intro c hcc
        exact hcopy.trans hcc
    · rw [heq]
      exact h.close hcopy hdec ⟨rfl, rfl⟩ (by simp) rfl rfl rfl rfl rfl rfl
  · rw [heq]
    exact h.quiet (by rw [hc]; rfl) ⟨rfl, rfl⟩ rfl rfl rfl rfl rfl rfl

theorem FlightInv.add (h : FlightInv s) {j : ℕ} (now : ℤ) (hg : s.send j = .stored) :
    FlightInv (s.add j now) := by
  have hj : s.send j ≠ .idle := by simp [hg]
  rcases add_cases s j now with ⟨-, heq⟩ | heq
  · rw [heq]
    exact h.send [] hj (by simp [hg, SendPc.decision]) (by simp) rfl rfl rfl rfl rfl
      (List.append_nil _).symm
  · rw [heq]
    refine h.send [⟨.send j, j, none⟩] hj ?_ ?_ rfl rfl rfl rfl rfl rfl
    · simp [hg, SendPc.decision, Transmission.decision]
    · intro o ho
      rw [List.mem_singleton.mp ho]
      exact ⟨rfl, rfl, by simp⟩

theorem FlightInv.sendStep (h : FlightInv s) {j : ℕ} (result : ℤ) (hg : s.send j = .tracked) :
    FlightInv (s.sendStep j result) := by
  have hj : s.send j ≠ .idle := by simp [hg]
  refine h.send [⟨.send j, j, some (s.message j)⟩] hj ?_ ?_ rfl rfl rfl rfl rfl rfl
  · split_ifs <;> simp [hg, SendPc.decision, Transmission.decision]
  · intro o ho
    rw [List.mem_singleton.mp ho]
    exact ⟨rfl, rfl, fun w hw => (Option.some.inj hw).symm⟩

theorem FlightInv.finish (h : FlightInv s) {j : ℕ} (hg : guard (.finish j) s) :
    FlightInv (s.finish j) := by
  -- the decision has been acted on by then
  have hover : s.send j ≠ .idle ∧ SendPc.decision j (s.send j) = [] := by
    rcases finish_cases hg with ⟨result, hc | hc, -⟩ | ⟨hc, -⟩ <;> rw [hc] <;> exact ⟨nofun, rfl⟩
  rcases finish_cases hg with ⟨result, -, heq⟩ | ⟨-, heq⟩
  · rw [heq]
    exact h.send [] hover.1 (by rw [hover.2]; rfl) (by simp) rfl rfl rfl rfl rfl
      (List.append_nil _).symm
  · rw [heq]
    exact h.send [] hover.1 (by rw [hover.2]; rfl) (by simp) rfl rfl rfl rfl rfl
      (List.append_nil _).symm

theorem FlightInv.step {l : RetryLabel} (h : FlightInv s) (hstore : StoreInv maxRetries s)
    (hg : guard l s) : FlightInv (update maxRetries l s) := by
  cases l with
  | monitor l => exact ⟨h.fresh, h.custody, h.copies, h.identical⟩
  | emit p =>
    obtain ⟨r, -, hidle, heq⟩ := emit_eq hg
    show FlightInv (s.emit p)
    rw [heq]
    exact h.quiet (by rw [hidle]; rfl) ⟨rfl, rfl⟩ rfl rfl rfl rfl rfl rfl
  | handle p => exact h.handle hstore hg
  | readd p now => exact h.readd hg
  | resend p =>
    obtain ⟨copy, owner, hc, heq⟩ := resend_eq hg
    have hcopy : CallbackPc.copy (s.callback p) = some (copy, owner) := by rw [hc]; rfl
    show FlightInv (s.resend p)
    rw [heq]
    exact h.close hcopy (by rw [hc]; rfl) ⟨rfl, rfl⟩ (fun w hw => (Option.some.inj hw).symm) rfl
      rfl rfl rfl rfl rfl
  | giveUp p =>
    obtain ⟨key, hc, heq⟩ := giveUp_eq hg
    show FlightInv (s.giveUp p)
    rw [heq]
    exact h.quiet (by rw [hc]; rfl) ⟨rfl, rfl⟩ rfl rfl rfl rfl rfl rfl
  | begin os header => exact h.begin os header
  | add j now => exact h.add now hg
  | send j result => exact h.sendStep result hg
  | finish j => exact h.finish hg

/-! ## Every run -/

theorem store_of_reachable {ok : RetryLabel → RetrySys cfg → Prop}
    (h : (retryLts cfg maxRetries).ReachableWhen ok s) : StoreInv maxRetries s := by
  refine h.induct ?_ ?_
  · rintro s rfl
    exact StoreInv.initial
  · intro l s _ hg _ hi
    exact hi.step hg

theorem flight_of_reachable {ok : RetryLabel → RetrySys cfg → Prop}
    (h : (retryLts cfg maxRetries).ReachableWhen ok s) : FlightInv s := by
  refine h.induct ?_ ?_
  · rintro s rfl
    exact FlightInv.initial
  · intro l s hr hg _ hi
    exact hi.step (store_of_reachable hr) hg

/-- What was sent had been decided. -/
theorem FlightInv.sends_le (h : FlightInv s) (j : ℕ) : s.sends j ≤ s.decisions j := by
  have hsub : List.Subperm (s.closed.map Transmission.decision) s.decided := h.custody.subperm
  have hcount := hsub.countP_le fun d => decide (d.2 = j)
  rw [List.countP_map] at hcount
  refine le_trans ?_ hcount
  refine List.countP_mono_left fun o _ ho => ?_
  simp only [decide_eq_true_eq] at ho
  exact decide_eq_true ho.1

/-- Only `SendWithRetry` itself and the packet in the store lead to decisions. -/
theorem decisions_step {l : RetryLabel} {j : ℕ} (h : StoreInv maxRetries s) (hg : guard l s)
    (hj : j ∈ s.settled) :
    j ∈ (update maxRetries l s).settled ∧
      (update maxRetries l s).decisions j = s.decisions j := by
  obtain ⟨hlt, hgone⟩ := h.settled j hj
  cases l with
  | emit p =>
    obtain ⟨r, -, -, heq⟩ := emit_eq hg
    show j ∈ (s.emit p).settled ∧ (s.emit p).decisions j = _
    rw [heq]
    exact ⟨hj, rfl⟩
  | handle p =>
    obtain ⟨r, hc⟩ := entered_of_guard hg
    show j ∈ (s.handle p).settled ∧ (s.handle p).decisions j = _
    rcases handle_cases hc with ⟨-, heq⟩ | ⟨e, he, ⟨-, heq⟩ | ⟨-, heq⟩ | ⟨-, heq⟩⟩
    · rw [heq]
      exact ⟨hj, rfl⟩
    · rw [heq]
      exact ⟨List.mem_append_left _ hj, rfl⟩
    · -- the packet of a settled message is not stored any more
      rw [heq]
      refine ⟨hj, ?_⟩
      have hne := hgone r.key (by simp [he])
      unfold decisions
      simp [hne]
    · rw [heq]
      exact ⟨hj, rfl⟩
  | readd p now =>
    show j ∈ (s.readd p now).settled ∧ (s.readd p now).decisions j = _
    rcases readd_cases hg with ⟨key, copy, owner, -, ⟨-, heq⟩ | heq⟩ | ⟨header, -, heq⟩ <;>
      rw [heq] <;> exact ⟨hj, rfl⟩
  | resend p =>
    obtain ⟨copy, owner, -, heq⟩ := resend_eq hg
    show j ∈ (s.resend p).settled ∧ (s.resend p).decisions j = _
    rw [heq]
    exact ⟨hj, rfl⟩
  | giveUp p =>
    obtain ⟨key, -, heq⟩ := giveUp_eq hg
    show j ∈ (s.giveUp p).settled ∧ (s.giveUp p).decisions j = _
    rw [heq]
    exact ⟨hj, rfl⟩
  | begin os header =>
    refine ⟨hj, ?_⟩
    have hne : s.begun ≠ j := by omega
    show (s.begin maxRetries os header).decisions j = _
    unfold decisions RetrySys.begin
    simp [hne]
  | add j' now =>
    show j ∈ (s.add j' now).settled ∧ (s.add j' now).decisions j = _
    rcases add_cases s j' now with ⟨-, heq⟩ | heq <;> rw [heq] <;> exact ⟨hj, rfl⟩
  | finish j' =>
    show j ∈ (s.finish j').settled ∧ (s.finish j').decisions j = _
    rcases finish_cases hg with ⟨result, -, heq⟩ | ⟨-, heq⟩ <;> rw [heq] <;> exact ⟨hj, rfl⟩
  | monitor l => exact ⟨hj, rfl⟩
  | send j' result => exact ⟨hj, rfl⟩

/-- At most `1 + maxRetries` transmissions of a message, each with its payload
and header, and none that is decided after the message was settled. -/
structure Retransmission (maxRetries : ℤ) (s : RetrySys cfg) : Prop where
  bounded : ∀ j, s.sends j ≤ 1 + maxRetries.toNat
  identical : ∀ o ∈ s.closed, ∀ w, o.wire = some w → w = s.message o.owner
  decided : ∀ j, s.sends j ≤ s.decisions j
  settled : ∀ j ∈ s.settled, ∀ s', (retryLts cfg maxRetries).Steps s s' →
    s'.decisions j = s.decisions j ∧ s'.sends j ≤ s.decisions j

theorem retransmission_bounded (h : (retryLts cfg maxRetries).Reachable s) :
    Retransmission maxRetries s := by
  have hstore := store_of_reachable h
  have hflight := flight_of_reachable h
  refine ⟨fun j => (hflight.sends_le j).trans (hstore.spent j),
    fun o ho => (hflight.identical o ho).2, hflight.sends_le, fun j hj s' hrun => ?_⟩
  have hkeep := h.preserves (P := fun t => j ∈ t.settled ∧ t.decisions j = s.decisions j)
    (fun l t ht hg _ hP => by
      obtain ⟨hmem, hsame⟩ := decisions_step (store_of_reachable ht) hg hP.1
      exact ⟨hmem, hsame.trans hP.2⟩) hrun ⟨hj, rfl⟩
  refine ⟨hkeep.2, ?_⟩
  rw [← hkeep.2]
  exact (flight_of_reachable (h.steps hrun)).sends_le j

/-! ## Runs -/

/-- A message is sent, times out and is sent once more. -/
def timeoutRun : List RetryLabel :=
  [RetryLabel.begin [42] (.make 1 7), .add 0 0, .send 0 0, .finish 0, .monitor .process,
    .monitor (.pass 0 2500), .emit 0, .handle 0, .readd 0 2500, .resend 0]

theorem retransmission_bounded_run : ∃ s : RetrySys .default, Retransmission 3 s ∧
    s.sends 0 = 2 ∧ s.store.find? (sendKey 1 7) = some ⟨[42], .make 1 7, 2, true⟩ := by
  obtain ⟨s, hs, hp⟩ := (retryLts .default 3).execWhen_reachable Lts.always rfl timeoutRun
    (fun s => s.sends 0 = 2 ∧ s.store.find? (sendKey 1 7) = some ⟨[42], .make 1 7, 2, true⟩)
    (by decide)
  exact ⟨s, retransmission_bounded hs, of_decide_eq_true hp⟩

/-- The acknowledgement of the first transmission arrives between the decision
to retry and the retransmission. -/
def lateAckRun : List RetryLabel :=
  [RetryLabel.begin [42] (.make 1 7), .add 0 0, .send 0 0, .finish 0, .monitor .process,
    .monitor (.pass 0 2500), .emit 0, .handle 0, .readd 0 2500, .monitor (.remove 7 0), .emit 1,
    .handle 1]

/-- The message is sent after its `SUCCESS` has been handled. -/
theorem sent_after_success : ∃ s : RetrySys .default, (retryLts .default 3).Reachable s ∧
    s.settled = [0] ∧ s.store.find? (sendKey 1 7) = none ∧
    (⟨1, 7, .success⟩ : StatusReport) ∈ s.monitor.emitted.map Prod.snd ∧
    ∃ s', (retryLts .default 3).Steps s s' ∧ s.sends 0 < s'.sends 0 := by
  obtain ⟨s, hs, hp⟩ := (retryLts .default 3).execWhen_reachable Lts.always rfl lateAckRun
    (fun s => (s.settled = [0] ∧ s.store.find? (sendKey 1 7) = none ∧
      (⟨1, 7, .success⟩ : StatusReport) ∈ s.monitor.emitted.map Prod.snd ∧ s.sends 0 = 1) ∧
      ((retryLts .default 3).execWhen Lts.always s [.resend 0]).any fun s' => s'.sends 0 = 2)
    (by decide)
  obtain ⟨⟨hset, hstore, hemit, hone⟩, hnext⟩ := of_decide_eq_true hp
  obtain ⟨s', hs', htwo⟩ := (Option.any_eq_true ..).mp hnext
  refine ⟨s, hs, hset, hstore, hemit, s', Lts.execWhen_steps _ hs', ?_⟩
  rw [hone, of_decide_eq_true htwo]
  exact Nat.one_lt_two

end RetrySys

end AsyncSqlite
