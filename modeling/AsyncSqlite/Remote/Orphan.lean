import AsyncSqlite.Remote.Resend

/-!
# AsyncSqlite.Remote.Orphan — a stored packet is tracked

A packet in the retry store is tracked by an entry of the pending map, or
somebody who is under way will see to it: the call that has stored it and not
yet added it, the monitor call that owes its status, or the callback that
handles it (`Covered`). When nothing is under way, every stored packet has a
pending entry.

The one place where this breaks is the second `Add` of `OnStatusChanged`, whose
result is ignored: if the map is full, the packet stays in the store with
nothing that refers to it. Statuses that are lost by overlapping passes have the
same effect.
-/

namespace AsyncSqlite

/-! ## What the monitor keeps track of -/

namespace MonitorSys

variable {cfg : MonitorConfig} {s : MonitorSys cfg}

/-- An entry under the key is pending, or its status is owed. -/
def Tracks (s : MonitorSys cfg) (k : ℕ) : Prop :=
  (s.pending.map.find? k).isSome ∨ ∃ p, ∃ r ∈ s.owed p, r.2.key = k

/-- A step that owes what was owed keeps track, if an entry that leaves is owed. -/
theorem Tracks.mono {s' : MonitorSys cfg} {k : ℕ} (h : s.Tracks k)
    (howed : ∀ p r, r ∈ s.owed p → r ∈ s'.owed p)
    (hpend : (s.pending.map.find? k).isSome → s'.Tracks k) : s'.Tracks k := by
  rcases h with h | ⟨p, r, hr, hk⟩
  · exact hpend h
  · exact Or.inr ⟨p, r, howed p r hr, hk⟩

theorem Tracks.add {k : ℕ} (h : s.Tracks k) (seqNum : UInt16) (remoteId : DelegateRemoteId)
    (now : ℤ) : (s.add seqNum remoteId now).Tracks k := by
  refine h.mono (fun p r hr => hr) fun hk => Or.inl ?_
  show ((s.pending.add seqNum remoteId now).pending.map.find? k).isSome
  by_cases hadm : s.pending.Admits seqNum remoteId
  · rw [(Pending.add_of_admits hadm now).1, OrderedMap.find?_insert]
    split_ifs
    · rfl
    · exact hk
  · rw [(Pending.add_of_not_admits hadm now).1]
    exact hk

/-- What `Add` is asked to track is tracked if the key was taken or there was
room. -/
theorem tracks_add {seqNum : UInt16} {remoteId : DelegateRemoteId} {now : ℤ}
    (h : s.pending.map.size < cfg.maxPending ∨
      (s.pending.map.find? (sendKey remoteId seqNum)).isSome) :
    (s.add seqNum remoteId now).Tracks (sendKey remoteId seqNum) := by
  by_cases hadm : s.pending.Admits seqNum remoteId
  · left
    show ((s.pending.add seqNum remoteId now).pending.map.find? _).isSome
    rw [(Pending.add_of_admits hadm now).1, OrderedMap.find?_insert_self]
    rfl
  · have hsome : (s.pending.map.find? (sendKey remoteId seqNum)).isSome := by
      rcases h with hroom | hsome
      · rw [Option.isSome_iff_ne_none]
        exact fun hnone => hadm ⟨hroom, hnone⟩
      · exact hsome
    exact Tracks.add (Or.inl hsome) seqNum remoteId now

/-- An accepted `Add` tracks the key. -/
theorem tracks_of_accepted {seqNum : UInt16} {remoteId : DelegateRemoteId} {now : ℤ}
    (hcap : 0 < cfg.maxPending)
    (h : (s.pending.add seqNum remoteId now).accepted = true) :
    (s.add seqNum remoteId now).Tracks (sendKey remoteId seqNum) := by
  refine tracks_add (Or.inl ?_)
  by_contra hroom
  have hadm : ¬ s.pending.Admits seqNum remoteId := fun hadm => hroom hadm.1
  have hzero := (Pending.add_of_not_admits hadm now).2.2.mp h
  omega

/-- A call that owes nothing may move on. -/
theorem owed_update_of_nil {s' : MonitorSys cfg} {p : ℕ} {pc : MonitorPc}
    (hnil : s.owed p = []) (hcall : s'.call = Function.update s.call p pc)
    (htaken : s'.taken = s.taken) (q : ℕ) (r : ℕ × StatusReport) (hr : r ∈ s.owed q) :
    r ∈ s'.owed q := by
  by_cases hq : q = p
  · rw [hq, hnil] at hr
    exact absurd hr List.not_mem_nil
  · rwa [owed_eq_of_call (s := s) (by simp [hcall, hq]) (by rw [htaken])]

theorem Tracks.remove {k : ℕ} (h : s.Tracks k) (hi : StatusInv s) (seqNum : UInt16)
    (remoteId : DelegateRemoteId) : (s.remove seqNum remoteId).Tracks k := by
  have hnil : s.owed s.begun = [] := owed_idle (hi.fresh s.begun le_rfl)
  cases hl : s.pending.lookup seqNum remoteId with
  | none =>
    unfold MonitorSys.remove
    rw [Pending.remove_of_none hl]
    exact h.mono (owed_update_of_nil hnil rfl rfl) Or.inl
  | some d =>
    unfold MonitorSys.remove
    rw [Pending.remove_of_some hl]
    refine h.mono (owed_update_of_nil hnil rfl rfl) fun hk => ?_
    by_cases hkd : k = d.key
    · -- the entry that leaves is owed
      subst hkd
      exact Or.inr ⟨s.begun, (s.begun, ⟨d.remoteId, d.seqNum, .success⟩), by simp [owed], rfl⟩
    · left
      show ((s.pending.erase d.key).map.find? k).isSome
      rwa [Pending.find?_erase, if_neg hkd]

theorem Tracks.pass {k p : ℕ} {now : ℤ} (h : s.Tracks k) (hg : s.call p = .passing) :
    (s.pass p now).Tracks k := by
  have hnil : s.owed p = [] := by
    unfold owed
    rw [hg]
  unfold MonitorSys.pass
  split_ifs
  · exact h.mono (owed_update_of_nil hnil rfl rfl) Or.inl
  · refine h.mono (fun q r hr => ?_) fun hk => ?_
    · by_cases hq : q = p
      · rw [hq, hnil] at hr
        exact absurd hr List.not_mem_nil
      · rwa [owed_eq_of_call (s := s) (by simp [hq]) (by simp [hq])]
    · obtain ⟨d, hd⟩ := Option.isSome_iff_exists.mp hk
      have hmem := OrderedMap.mem_entries.mpr hd
      by_cases hscan : (k, d) ∈ (Pending.scan cfg now 0 s.pending.map.entries).1
      · right
        have hitem : d ∈ (s.pending.pass now).items := List.mem_map_of_mem (f := Prod.snd) hscan
        refine ⟨p, timeoutOf p d, ?_, (Pending.mem_entries hd).symm⟩
        simpa [owed] using ⟨d, hitem, rfl⟩
      · left
        have hkept := Pending.mem_pass.mpr ⟨hmem, hscan⟩
        show ((s.pending.pass now).pending.map.find? k).isSome
        rw [OrderedMap.mem_entries.mp hkept]
        rfl

theorem Tracks.finish {k p : ℕ} (h : s.Tracks k) (hi : StatusInv s)
    (hg : guard (.finish p) s) : (s.finish p).Tracks k := by
  cases hc : s.call p with
  | firing next count r =>
    have hnext : next = count := by simpa [guard, hc] using hg
    have hnil : s.owed p = [] := by
      unfold owed
      rw [hc, hi.taken_nil hc hnext.ge]
      rfl
    unfold MonitorSys.finish
    rw [hc]
    exact h.mono (owed_update_of_nil hnil rfl rfl) Or.inl
  | idle | passing | returned | removed => simp [guard, hc] at hg

/-- A status that is emitted is owed no more; everything else stays tracked. -/
theorem Tracks.fire {k p : ℕ} {r : StatusReport} (h : s.Tracks k) (hi : StatusInv s)
    (hr : s.emission p = some r) : (s.fire p).Tracks k ∨ r.key = k := by
  rcases h with h | ⟨q, x, hx, hk⟩
  · exact Or.inl (Or.inl h)
  · by_cases hq : q = p
    · subst hq
      rw [hi.owed_fire hr] at hx
      rcases List.mem_cons.mp hx with rfl | hx
      · exact Or.inr hk
      · exact Or.inl (Or.inr ⟨q, x, hx, hk⟩)
    · refine Or.inl (Or.inr ⟨q, x, ?_, hk⟩)
      rwa [owed_eq_of_call (s := s) (by simp [MonitorSys.fire, hq])
        (by simp [MonitorSys.fire, hq])]

end MonitorSys

namespace RetrySys

variable {cfg : MonitorConfig} {maxRetries : ℤ} {s s' : RetrySys cfg}

/-! ## Who sees to a packet -/

/-- The key that a callback is busy with. -/
def CallbackPc.key : CallbackPc → Option ℕ
  | .entered r => some r.key
  | .retrying key _ _ | .givingUp key => some key
  | .reregistering header => some header.key
  | .idle | .resending .. => none

/-- A call of `SendWithRetry` will add or erase its packet. -/
def SendPc.registering : SendPc → Prop
  | .stored | .refused => True
  | _ => False

def Registering (s : RetrySys cfg) (j k : ℕ) : Prop :=
  SendPc.registering (s.send j) ∧ (s.message j).header.key = k

def Covered (s : RetrySys cfg) (k : ℕ) : Prop :=
  s.monitor.Tracks k ∨ (∃ j, s.Registering j k) ∨ ∃ p, CallbackPc.key (s.callback p) = some k

/-- No call of `SendWithRetry` is in progress and no status is on its way. -/
structure Quiet (s : RetrySys cfg) : Prop where
  send : ∀ j, s.send j = .idle ∨ ∃ result, s.send j = .returned result
  callback : ∀ p, s.callback p = .idle
  owed : ∀ p, s.monitor.owed p = []

/-- The second `Add` of `OnStatusChanged` finds room, or its key in the map. -/
def HasRoom (s : RetrySys cfg) : CallbackPc → Prop
  | .reregistering header => s.monitor.pending.map.size < cfg.maxPending ∨
      (s.monitor.pending.map.find? header.key).isSome
  | _ => True

/-- The condition under which no packet is left alone: the cap is not 0, no
pass writes to cells that another one has still to report, and `Add` is not
refused when `OnStatusChanged` calls it because the first send is not over. -/
def Registered : RetryLabel → RetrySys cfg → Prop
  | .monitor l, s => MonitorSys.BufferFree l s.monitor
  | .add .., _ => 0 < cfg.maxPending
  | .readd p _, s => 0 < cfg.maxPending ∧ s.HasRoom (s.callback p)
  | _, _ => True

/-- In such a run the monitor's part is a run in which no status is lost. -/
theorem monitor_of_reachable (h : (retryLts cfg maxRetries).ReachableWhen Registered s) :
    (monitorLts cfg).ReachableWhen MonitorSys.BufferFree s.monitor := by
  refine h.map (f := RetrySys.monitor) ?_ ?_
  · rintro s rfl
    rfl
  · intro l s _ hg hok
    cases l with
    | monitor l => exact Or.inr ⟨l, hg.1, hok, rfl⟩
    | emit p =>
      -- the status handler is called in a step of the monitor
      obtain ⟨r, -, -, heq⟩ := emit_eq hg
      refine Or.inr ⟨.fire p, hg.1, trivial, ?_⟩
      show (s.emit p).monitor = s.monitor.fire p
      rw [heq]
    | handle p =>
      obtain ⟨r, hc⟩ := entered_of_guard hg
      left
      show (s.handle p).monitor = s.monitor
      rcases handle_cases hc with ⟨-, heq⟩ | ⟨e, -, ⟨-, heq⟩ | ⟨-, heq⟩ | ⟨-, heq⟩⟩ <;>
        rw [heq] <;> rfl
    | readd p now =>
      right
      show ∃ k, _ ∧ _ ∧ (s.readd p now).monitor = _
      -- the map is asked to take the message once more, whether it does or not
      rcases readd_cases hg with ⟨key, copy, owner, -, ⟨-, heq⟩ | heq⟩ | ⟨header, -, heq⟩
      · rw [heq]
        exact ⟨.add copy.header.seqNum copy.header.id now, trivial, trivial, rfl⟩
      · rw [heq]
        exact ⟨.add copy.header.seqNum copy.header.id now, trivial, trivial, rfl⟩
      · rw [heq]
        exact ⟨.add header.seqNum header.id now, trivial, trivial, rfl⟩
    | resend p =>
      obtain ⟨copy, owner, -, heq⟩ := resend_eq hg
      left
      show (s.resend p).monitor = s.monitor
      rw [heq]
      rfl
    | giveUp p =>
      obtain ⟨key, -, heq⟩ := giveUp_eq hg
      left
      show (s.giveUp p).monitor = s.monitor
      rw [heq]
      rfl
    | begin os header => exact Or.inl rfl
    | add j now =>
      right
      refine ⟨.add (s.message j).header.seqNum (s.message j).header.id now, trivial, trivial, ?_⟩
      show (s.add j now).monitor = _
      rcases add_cases s j now with ⟨-, heq⟩ | heq <;> rw [heq] <;> rfl
    | send j result => exact Or.inl rfl
    | finish j =>
      left
      show (s.finish j).monitor = s.monitor
      rcases finish_cases hg with ⟨result, -, heq⟩ | ⟨-, heq⟩ <;> rw [heq] <;> rfl

/-! ## Invariant -/

structure OrphanInv (s : RetrySys cfg) : Prop where
  covered : ∀ k, (s.store.find? k).isSome → s.Covered k
  /-- a retry is added under the key of its packet -/
  retryKey : ∀ p key copy owner, s.callback p = .retrying key copy owner →
    key = copy.header.key

theorem OrphanInv.initial : OrphanInv (initial cfg) := by
  constructor
  · intro k h
    cases h
  · intro p key copy owner h
    cases h

/-- A callback moves on; what it was busy with is covered otherwise. -/
theorem Covered.callback {k p : ℕ} {pc : CallbackPc} (h : s.Covered k)
    (hmon : s.monitor.Tracks k → s'.monitor.Tracks k) (hsend : s'.send = s.send)
    (hmessage : s'.message = s.message) (hcall : s'.callback = Function.update s.callback p pc)
    (hkey : CallbackPc.key (s.callback p) = some k →
      CallbackPc.key pc = some k ∨ s'.monitor.Tracks k) : s'.Covered k := by
  rcases h with h | ⟨j, hj⟩ | ⟨q, hq⟩
  · exact Or.inl (hmon h)
  · refine Or.inr (Or.inl ⟨j, ?_⟩)
    unfold Registering
    rw [hsend, hmessage]
    exact hj
  · by_cases hqp : q = p
    · subst hqp
      rcases hkey hq with hpc | htr
      · refine Or.inr (Or.inr ⟨q, ?_⟩)
        rw [hcall, Function.update_self, hpc]
      · exact Or.inl htr
    · refine Or.inr (Or.inr ⟨q, ?_⟩)
      rw [hcall, Function.update_of_ne hqp, hq]

/-- A call of `SendWithRetry` moves on; what it had to register is covered. -/
theorem Covered.send {k j : ℕ} {pc : SendPc} (h : s.Covered k)
    (hmon : s.monitor.Tracks k → s'.monitor.Tracks k) (hcall : s'.callback = s.callback)
    (hmessage : s'.message = s.message) (hsend : s'.send = Function.update s.send j pc)
    (hkey : s.Registering j k → SendPc.registering pc ∨ s'.monitor.Tracks k) : s'.Covered k := by
  rcases h with h | ⟨i, hi⟩ | ⟨q, hq⟩
  · exact Or.inl (hmon h)
  · by_cases hij : i = j
    · subst hij
      rcases hkey hi with hpc | htr
      · refine Or.inr (Or.inl ⟨i, ?_, ?_⟩)
        · rw [hsend, Function.update_self]
          exact hpc
        · rw [hmessage]
          exact hi.2
      · exact Or.inl htr
    · refine Or.inr (Or.inl ⟨i, ?_, ?_⟩)
      · rw [hsend, Function.update_of_ne hij]
        exact hi.1
      · rw [hmessage]
        exact hi.2
  · refine Or.inr (Or.inr ⟨q, ?_⟩)
    rw [hcall, hq]

theorem OrphanInv.emit (h : OrphanInv s) (hi : s.monitor.StatusInv) {p : ℕ}
    (hg : guard (.emit p) s) : OrphanInv (s.emit p) := by
  obtain ⟨r, hr, hidle, heq⟩ := emit_eq hg
  rw [heq]
  refine ⟨fun k hk => ?_, fun q key copy owner hq => ?_⟩
  · rcases h.covered k hk with htr | hreg | ⟨q, hq⟩
    · -- the status is owed no more, but the callback has it
      rcases htr.fire hi hr with htr | hkey
      · exact Or.inl htr
      · refine Or.inr (Or.inr ⟨p, ?_⟩)
        show CallbackPc.key (Function.update s.callback p (.entered r) p) = some k
        rw [Function.update_self, ← hkey]
        rfl
    · exact Or.inr (Or.inl hreg)
    · have hqp : q ≠ p := by
        rintro rfl
        rw [hidle] at hq
        cases hq
      refine Or.inr (Or.inr ⟨q, ?_⟩)
      show CallbackPc.key (Function.update s.callback p (.entered r) q) = some k
      rw [Function.update_of_ne hqp, hq]
  · have hq' : Function.update s.callback p (.entered r) q = .retrying key copy owner := hq
    by_cases hqp : q = p
    · subst hqp
      rw [Function.update_self] at hq'
      cases hq'
    · rw [Function.update_of_ne hqp] at hq'
      exact h.retryKey q key copy owner hq'

/-- `retryKey` after a step of the callback `p`. -/
theorem OrphanInv.retryKey_update (h : OrphanInv s) {p : ℕ} {pc : CallbackPc}
    (hcall : s'.callback = Function.update s.callback p pc)
    (hpc : ∀ key copy owner, pc = .retrying key copy owner → key = copy.header.key) :
    ∀ q key copy owner, s'.callback q = .retrying key copy owner → key = copy.header.key := by
  intro q key copy owner hq
  rw [hcall] at hq
  by_cases hqp : q = p
  · subst hqp
    rw [Function.update_self] at hq
    exact hpc key copy owner hq
  · rw [Function.update_of_ne hqp] at hq
    exact h.retryKey q key copy owner hq

theorem OrphanInv.handle (h : OrphanInv s) (hstore : StoreInv maxRetries s) {p : ℕ}
    (hg : guard (.handle p) s) : OrphanInv (s.handle p) := by
  obtain ⟨r, hc⟩ := entered_of_guard hg
  have hkey : CallbackPc.key (s.callback p) = some r.key := by
    rw [hc]
    rfl
  rcases handle_cases hc with ⟨hnone, heq⟩ | ⟨e, he, ⟨-, heq⟩ | ⟨-, heq⟩ | ⟨-, heq⟩⟩
  · rw [heq]
    refine ⟨fun k hk => ?_, h.retryKey_update rfl nofun⟩
    refine (h.covered k hk).callback id rfl rfl rfl fun hp => ?_
    -- nothing is stored under the key
    rw [hkey] at hp
    cases hp
    have hk' : (s.store.find? r.key).isSome := hk
    rw [hnone] at hk'
    cases hk'
  · rw [heq]
    refine ⟨fun k hk => ?_, h.retryKey_update rfl nofun⟩
    have hk' : ((s.store.erase r.key).find? k).isSome := hk
    rw [OrderedMap.find?_erase] at hk'
    split_ifs at hk' with hkr
    · cases hk'
    · refine (h.covered k hk').callback id rfl rfl rfl fun hp => ?_
      rw [hkey] at hp
      exact absurd (Option.some.inj hp).symm hkr
  · rw [heq]
    refine ⟨fun k hk => ?_, h.retryKey_update rfl ?_⟩
    · have hk' : (s.store.find? k).isSome := by
        have hins : ((s.store.insert r.key { e with
          attemptsRemaining := e.attemptsRemaining - 1 }).find? k).isSome := hk
        rw [OrderedMap.find?_insert] at hins
        split_ifs at hins with hkr
        · rw [hkr, he]
          rfl
        · exact hins
      exact (h.covered k hk').callback id rfl rfl rfl fun hp => Or.inl (hkey.symm.trans hp)
    · intro key copy owner hpc
      cases hpc
      exact (hstore.stored r.key e he).1
  · rw [heq]
    refine ⟨fun k hk => ?_, h.retryKey_update rfl nofun⟩
    refine (h.covered k hk).callback id rfl rfl rfl fun hp => Or.inl ?_
    rw [hkey] at hp
    rw [← hp, (hstore.stored r.key e he).1]
    rfl

theorem OrphanInv.readd (h : OrphanInv s) {p : ℕ} {now : ℤ} (hg : guard (.readd p now) s)
    (hok : Registered (.readd p now) s) : OrphanInv (s.readd p now) := by
  obtain ⟨hcap, hroom⟩ := hok
  rcases readd_cases hg with ⟨key, copy, owner, hc, hadd⟩ | ⟨header, hc, heq⟩
  · have hcopy := h.retryKey p key copy owner hc
    have hkey : CallbackPc.key (s.callback p) = some key := by
      rw [hc]
      rfl
    rcases hadd with ⟨hacc, heq⟩ | heq
    · rw [heq]
      refine ⟨fun k hk => ?_, h.retryKey_update rfl nofun⟩
      refine (h.covered k hk).callback (fun ht => ht.add ..) rfl rfl rfl fun hp => Or.inr ?_
      -- the accepted entry tracks the packet
      rw [hkey] at hp
      rw [← Option.some.inj hp, hcopy]
      exact MonitorSys.tracks_of_accepted hcap hacc
    · rw [heq]
      refine ⟨fun k hk => ?_, h.retryKey_update rfl nofun⟩
      exact (h.covered k hk).callback (fun ht => ht.add ..) rfl rfl rfl
        fun hp => Or.inl (hkey.symm.trans hp)
  · have hkey : CallbackPc.key (s.callback p) = some header.key := by
      rw [hc]
      rfl
    rw [hc] at hroom
    rw [heq]
    refine ⟨fun k hk => ?_, h.retryKey_update rfl nofun⟩
    refine (h.covered k hk).callback (fun ht => ht.add ..) rfl rfl rfl fun hp => Or.inr ?_
    rw [hkey] at hp
    rw [← Option.some.inj hp]
    exact MonitorSys.tracks_add hroom

/-- A callback erases its packet. -/
theorem OrphanInv.giveUp (h : OrphanInv s) {p : ℕ} (hg : guard (.giveUp p) s) :
    OrphanInv (s.giveUp p) := by
  obtain ⟨key, hc, heq⟩ := giveUp_eq hg
  rw [heq]
  refine ⟨fun k hk => ?_, h.retryKey_update rfl nofun⟩
  have hk' : ((s.store.erase key).find? k).isSome := hk
  rw [OrderedMap.find?_erase] at hk'
  split_ifs at hk' with hkk
  · cases hk'
  · refine (h.covered k hk').callback id rfl rfl rfl fun hp => ?_
    rw [hc] at hp
    exact absurd (Option.some.inj hp).symm hkk

theorem OrphanInv.resend (h : OrphanInv s) {p : ℕ} (hg : guard (.resend p) s) :
    OrphanInv (s.resend p) := by
  obtain ⟨copy, owner, hc, heq⟩ := resend_eq hg
  rw [heq]
  refine ⟨fun k hk => ?_, h.retryKey_update rfl nofun⟩
  refine (h.covered k hk).callback id rfl rfl rfl fun hp => ?_
  rw [hc] at hp
  cases hp

theorem OrphanInv.begin (h : OrphanInv s) (hf : FlightInv s) (os : List UInt8)
    (header : DmqHeader) : OrphanInv (s.begin maxRetries os header) := by
  refine ⟨fun k hk => ?_, h.retryKey⟩
  by_cases hkh : k = header.key
  · refine Or.inr (Or.inl ⟨s.begun, ?_, ?_⟩)
    · show SendPc.registering (Function.update s.send s.begun .stored s.begun)
      rw [Function.update_self]
      trivial
    · show (Function.update s.message s.begun ⟨header, os⟩ s.begun).header.key = k
      rw [Function.update_self, hkh]
  · have hk' : (s.store.find? k).isSome := by
      have hput : ((s.store.insert header.key ⟨os, header, maxRetries, false⟩).find? k).isSome := hk
      rwa [OrderedMap.find?_insert, if_neg hkh] at hput
    rcases h.covered k hk' with htr | ⟨j, hj, hjk⟩ | hcb
    · exact Or.inl htr
    · -- the new call has a number that is not in use
      have hne : j ≠ s.begun := by
        rintro rfl
        rw [hf.fresh s.begun le_rfl] at hj
        exact hj
      refine Or.inr (Or.inl ⟨j, ?_, ?_⟩)
      · show SendPc.registering (Function.update s.send s.begun .stored j)
        rwa [Function.update_of_ne hne]
      · show (Function.update s.message s.begun ⟨header, os⟩ j).header.key = k
        rw [Function.update_of_ne hne, hjk]
    · exact Or.inr (Or.inr hcb)

theorem OrphanInv.add (h : OrphanInv s) {j : ℕ} {now : ℤ} (hcap : 0 < cfg.maxPending) :
    OrphanInv (s.add j now) := by
  rcases add_cases s j now with ⟨hacc, heq⟩ | heq
  · rw [heq]
    refine ⟨fun k hk => ?_, h.retryKey⟩
    refine (h.covered k hk).send (fun ht => ht.add ..) rfl rfl rfl fun hj => Or.inr ?_
    rw [← hj.2]
    exact MonitorSys.tracks_of_accepted hcap hacc
  · rw [heq]
    refine ⟨fun k hk => ?_, h.retryKey⟩
    exact (h.covered k hk).send (fun ht => ht.add ..) rfl rfl rfl fun _ => Or.inl trivial

theorem OrphanInv.finish (h : OrphanInv s) {j : ℕ} (hg : guard (.finish j) s) :
    OrphanInv (s.finish j) := by
  rcases finish_cases hg with ⟨result, -, heq⟩ | ⟨hc, heq⟩
  · -- a packet that is erased needs nobody, whoever was registering it
    rw [heq]
    refine ⟨fun k hk => ?_, h.retryKey⟩
    have hk' : ((s.store.erase (s.message j).header.key).find? k).isSome := hk
    rw [OrderedMap.find?_erase] at hk'
    split_ifs at hk' with hkj
    · cases hk'
    · refine (h.covered k hk').send id rfl rfl rfl fun hj => ?_
      exact absurd hj.2.symm hkj
  · rw [heq]
    refine ⟨fun k hk => ?_, h.retryKey⟩
    have hk' : (s.store.find? k).isSome := by
      have hmark : ((s.store.markSent (s.message j).header.key).find? k).isSome := hk
      rw [RetryStore.find?_markSent] at hmark
      simpa using hmark
    refine (h.covered k hk').send id rfl rfl rfl fun hj => ?_
    have hreg := hj.1
    rw [hc] at hreg
    exact absurd hreg not_false

theorem OrphanInv.monitorStep (h : OrphanInv s) (hi : s.monitor.StatusInv) {l : MonitorLabel}
    (hg : guard (.monitor l) s) :
    OrphanInv { s with monitor := MonitorSys.update l s.monitor } := by
  refine ⟨fun k hk => ?_, h.retryKey⟩
  rcases h.covered k hk with htr | hrest
  · left
    cases l with
    | add seqNum remoteId now => exact htr.add seqNum remoteId now
    | remove seqNum remoteId => exact htr.remove hi seqNum remoteId
    | process =>
      exact htr.mono (MonitorSys.owed_update_of_nil
        (MonitorSys.owed_idle (hi.fresh s.monitor.begun le_rfl)) rfl rfl) Or.inl
    | pass p now => exact htr.pass hg.1
    | fire p => exact absurd hg.2 not_false
    | finish p => exact htr.finish hi hg.1
  · exact Or.inr hrest

theorem OrphanInv.step {l : RetryLabel} (h : OrphanInv s) (hi : s.monitor.StatusInv)
    (hstore : StoreInv maxRetries s) (hf : FlightInv s) (hg : guard l s)
    (hok : Registered l s) : OrphanInv (update maxRetries l s) := by
  cases l with
  | monitor l => exact h.monitorStep hi hg
  | emit p => exact h.emit hi hg
  | handle p => exact h.handle hstore hg
  | readd p now => exact h.readd hg hok
  | resend p => exact h.resend hg
  | giveUp p => exact h.giveUp hg
  | begin os header => exact h.begin hf os header
  | add j now => exact h.add hok
  | send j result =>
    refine ⟨fun k hk => ?_, h.retryKey⟩
    refine (h.covered k hk).send (j := j) id rfl rfl rfl fun hj => ?_
    have hreg := hj.1
    rw [show s.send j = .tracked from hg] at hreg
    exact absurd hreg not_false
  | finish j => exact h.finish hg

theorem orphan_of_reachable (h : (retryLts cfg maxRetries).ReachableWhen Registered s) :
    OrphanInv s := by
  refine h.induct ?_ ?_
  · rintro s rfl
    exact OrphanInv.initial
  · intro l s hr hg hok hi
    exact hi.step (MonitorSys.status_of_reachable (monitor_of_reachable hr))
      (store_of_reachable hr) (flight_of_reachable hr) hg hok

/-- Somebody sees to every stored packet, and the monitor does if nothing is
under way; then the store is no larger than the cap of the map. -/
structure NoOrphan (s : RetrySys cfg) : Prop where
  covered : ∀ k, (s.store.find? k).isSome → s.Covered k
  tracked : s.Quiet → ∀ k, (s.store.find? k).isSome →
    (s.monitor.pending.map.find? k).isSome
  bounded : s.Quiet → s.store.size ≤ cfg.maxPending

/-- What is covered when nothing is under way is pending. -/
theorem Covered.pending {k : ℕ} (h : s.Covered k) (hq : s.Quiet) :
    (s.monitor.pending.map.find? k).isSome := by
  rcases h with (hpend | ⟨p, r, hr, -⟩) | ⟨j, hj, -⟩ | ⟨p, hp⟩
  · exact hpend
  · rw [hq.owed p] at hr
    exact absurd hr List.not_mem_nil
  · rcases hq.send j with hidle | ⟨result, hret⟩
    · rw [hidle] at hj
      exact absurd hj not_false
    · rw [hret] at hj
      exact absurd hj not_false
  · rw [hq.callback p] at hp
    cases hp

theorem no_orphaned_entry (h : (retryLts cfg maxRetries).ReachableWhen Registered s) :
    NoOrphan s := by
  have hi := orphan_of_reachable h
  have htracked : s.Quiet → ∀ k, (s.store.find? k).isSome →
      (s.monitor.pending.map.find? k).isSome :=
    fun hq k hk => (hi.covered k hk).pending hq
  exact ⟨hi.covered, htracked, fun hq =>
    (OrderedMap.size_le_of_keys (htracked hq)).trans s.monitor.pending.capped⟩

/-! ## Runs -/

instance (l : RetryLabel) (s : RetrySys cfg) : Decidable (Registered l s) :=
  match l with
  | .monitor l => inferInstanceAs (Decidable (MonitorSys.BufferFree l s.monitor))
  | .add .. => inferInstanceAs (Decidable (0 < cfg.maxPending))
  | .readd p _ =>
    have : Decidable (s.HasRoom (s.callback p)) := match s.callback p with
      | .reregistering header => inferInstanceAs (Decidable
          (s.monitor.pending.map.size < cfg.maxPending ∨
            (s.monitor.pending.map.find? header.key).isSome = true))
      | .idle | .entered _ | .retrying .. | .resending .. | .givingUp _ => isTrue trivial
    inferInstanceAs (Decidable (_ ∧ _))
  | .emit _ | .handle _ | .resend _ | .giveUp _ | .begin .. | .send .. | .finish _ =>
    isTrue trivial

/-- The first send is not over when the message times out; it is registered
once more. -/
def slowSendRun : List RetryLabel :=
  [RetryLabel.begin [42] (.make 1 7), .add 0 0, .monitor .process, .monitor (.pass 0 2500), .emit 0,
    .handle 0, .readd 0 2600, .send 0 0, .finish 0]

theorem no_orphaned_entry_run : ∃ s : RetrySys .default, NoOrphan s ∧
    (s.store.find? (sendKey 1 7)).isSome ∧
    s.monitor.pending.data = [⟨1, 7, 2600⟩] := by
  obtain ⟨s, hs, hp⟩ := (retryLts .default 3).execWhen_reachable Registered rfl slowSendRun
    (fun s => (s.store.find? (sendKey 1 7)).isSome ∧
      s.monitor.pending.data = [⟨1, 7, 2600⟩]) (by decide)
  exact ⟨s, no_orphaned_entry hs, of_decide_eq_true hp⟩

/-! ### Numbers that are not in use -/

/-- Neither a call nor a callback with a number that is still to be given. -/
structure Unused (s : RetrySys cfg) : Prop where
  call : ∀ p, s.monitor.begun ≤ p → s.monitor.call p = .idle
  callback : ∀ p, s.monitor.begun ≤ p → s.callback p = .idle

theorem call_update {m m' : MonitorSys cfg} {p : ℕ} {pc : MonitorPc}
    (h : ∀ q, m.begun ≤ q → m.call q = .idle) (hp : p < m'.begun) (hbegun : m.begun ≤ m'.begun)
    (hcall : m'.call = Function.update m.call p pc) : ∀ q, m'.begun ≤ q → m'.call q = .idle := by
  intro q hq
  rw [hcall, Function.update_of_ne (by omega)]
  exact h q (hbegun.trans hq)

theorem unused_monitor {m : MonitorSys cfg} (h : ∀ q, m.begun ≤ q → m.call q = .idle)
    {l : MonitorLabel} (hg : MonitorSys.guard l m) :
    m.begun ≤ (MonitorSys.update l m).begun ∧
      ∀ q, (MonitorSys.update l m).begun ≤ q → (MonitorSys.update l m).call q = .idle := by
  have hlt : ∀ p, m.call p ≠ .idle → p < m.begun := by
    intro p hp
    by_contra hge
    exact hp (h p (not_lt.mp hge))
  cases l with
  | add seqNum remoteId now => exact ⟨le_rfl, h⟩
  | remove seqNum remoteId =>
    show m.begun ≤ (m.remove seqNum remoteId).begun ∧ ∀ q, (m.remove seqNum remoteId).begun ≤ q →
      (m.remove seqNum remoteId).call q = .idle
    -- a new call takes the next number
    unfold MonitorSys.remove
    split <;>
      exact ⟨Nat.le_succ _, call_update h (Nat.lt_succ_self m.begun) (Nat.le_succ _) rfl⟩
  | process => exact ⟨Nat.le_succ _, call_update h (Nat.lt_succ_self m.begun) (Nat.le_succ _) rfl⟩
  | pass p now =>
    have hp := hlt p (by rw [show m.call p = .passing from hg]; nofun)
    show m.begun ≤ (m.pass p now).begun ∧ ∀ q, (m.pass p now).begun ≤ q →
      (m.pass p now).call q = .idle
    unfold MonitorSys.pass
    dsimp only
    split_ifs <;> exact ⟨le_rfl, call_update h hp le_rfl rfl⟩
  | fire p =>
    have hp := hlt p fun hidle => hg (by simp [MonitorSys.emission, hidle])
    exact ⟨le_rfl, call_update h hp le_rfl rfl⟩
  | finish p =>
    have hp := hlt p fun hidle => by simp [MonitorSys.guard, hidle] at hg
    show m.begun ≤ (m.finish p).begun ∧ ∀ q, (m.finish p).begun ≤ q →
      (m.finish p).call q = .idle
    unfold MonitorSys.finish
    split
    · exact ⟨le_rfl, call_update h hp le_rfl rfl⟩
    · exact ⟨le_rfl, h⟩

/-- A callback that is already running moves on. -/
theorem Unused.move (h : Unused s) {p : ℕ} {pc : CallbackPc} (hp : p < s.monitor.begun)
    (hcall : s'.callback = Function.update s.callback p pc)
    (hbegun : s'.monitor.begun = s.monitor.begun) (hmon : s'.monitor.call = s.monitor.call) :
    Unused s' := by
  constructor
  · rw [hbegun, hmon]
    exact h.call
  · intro q hq
    rw [hbegun] at hq
    rw [hcall, Function.update_of_ne (by omega)]
    exact h.callback q hq

theorem Unused.step {l : RetryLabel} (h : Unused s) (hg : guard l s) :
    Unused (update maxRetries l s) := by
  have hlt : ∀ p, s.callback p ≠ .idle → p < s.monitor.begun := by
    intro p hp
    by_contra hge
    exact hp (h.callback p (not_lt.mp hge))
  cases l with
  | monitor l =>
    obtain ⟨hle, hcall⟩ := unused_monitor h.call hg.1
    exact ⟨hcall, fun q hq => h.callback q (hle.trans hq)⟩
  | emit p =>
    obtain ⟨r, hr, -, heq⟩ := emit_eq hg
    obtain ⟨-, hcall⟩ := unused_monitor h.call (l := .fire p) hg.1
    -- the monitor's call that emits has begun
    have hp : p < s.monitor.begun := by
      by_contra hge
      simp [MonitorSys.emission, h.call p (not_lt.mp hge)] at hr
    show Unused (s.emit p)
    rw [heq]
    refine ⟨hcall, fun q hq => ?_⟩
    have hq' : s.monitor.begun ≤ q := hq
    exact (Function.update_of_ne (by omega) ..).trans (h.callback q hq')
  | handle p =>
    obtain ⟨r, hc⟩ := entered_of_guard hg
    have hp := hlt p (by simp [hc])
    show Unused (s.handle p)
    rcases handle_cases hc with ⟨-, heq⟩ | ⟨e, -, ⟨-, heq⟩ | ⟨-, heq⟩ | ⟨-, heq⟩⟩ <;>
      rw [heq] <;> exact h.move hp rfl rfl rfl
  | readd p now =>
    show Unused (s.readd p now)
    rcases readd_cases hg with ⟨key, copy, owner, hc, ⟨-, heq⟩ | heq⟩ | ⟨header, hc, heq⟩ <;>
      rw [heq] <;> exact h.move (hlt p (by simp [hc])) rfl rfl rfl
  | resend p =>
    obtain ⟨copy, owner, hc, heq⟩ := resend_eq hg
    show Unused (s.resend p)
    rw [heq]
    exact h.move (hlt p (by simp [hc])) rfl rfl rfl
  | giveUp p =>
    obtain ⟨key, hc, heq⟩ := giveUp_eq hg
    show Unused (s.giveUp p)
    rw [heq]
    exact h.move (hlt p (by simp [hc])) rfl rfl rfl
  | begin os header => exact ⟨h.call, h.callback⟩
  | add j now =>
    show Unused (s.add j now)
    rcases add_cases s j now with ⟨-, heq⟩ | heq <;> rw [heq] <;> exact ⟨h.call, h.callback⟩
  | send j result => exact ⟨h.call, h.callback⟩
  | finish j =>
    show Unused (s.finish j)
    rcases finish_cases hg with ⟨result, -, heq⟩ | ⟨-, heq⟩ <;> rw [heq] <;>
      exact ⟨h.call, h.callback⟩

theorem unused_of_reachable {ok : RetryLabel → RetrySys cfg → Prop}
    (h : (retryLts cfg maxRetries).ReachableWhen ok s) : Unused s := by
  refine h.induct ?_ ?_
  · rintro s rfl
    exact ⟨fun _ _ => rfl, fun _ _ => rfl⟩
  · intro l s _ hg _ hi
    exact hi.step hg

/-- The calls that have begun are all there is to look at. -/
theorem quiet_of_begun {ok : RetryLabel → RetrySys cfg → Prop}
    (h : (retryLts cfg maxRetries).ReachableWhen ok s)
    (hsend : ∀ j < s.begun, ∃ result, s.send j = .returned result)
    (hcall : ∀ p < s.monitor.begun, s.callback p = .idle ∧ s.monitor.call p = .returned) :
    s.Quiet := by
  have hu := unused_of_reachable h
  have hf := flight_of_reachable h
  refine ⟨fun j => ?_, fun p => ?_, fun p => ?_⟩
  · rcases lt_or_ge j s.begun with hj | hj
    · exact Or.inr (hsend j hj)
    · exact Or.inl (hf.fresh j hj)
  · rcases lt_or_ge p s.monitor.begun with hp | hp
    · exact (hcall p hp).1
    · exact hu.callback p hp
  · rcases lt_or_ge p s.monitor.begun with hp | hp
    · simp [MonitorSys.owed, (hcall p hp).2]
    · exact MonitorSys.owed_idle (hu.call p hp)

/-- The same, but other messages have filled the map in between. -/
def fullMapRun : List RetryLabel :=
  [RetryLabel.begin [42] (.make 1 7), .add 0 0, .monitor .process, .monitor (.pass 0 2500)] ++
  (List.range 100).map (fun i => .monitor (.add (UInt16.ofNat i) 2 2550)) ++
  [RetryLabel.emit 0, .handle 0, .readd 0 2600, .send 0 0, .finish 0, .monitor (.finish 0)]

/-- Nothing is under way, the packet is stored, and no entry tracks it. -/
theorem orphaned_entry : ∃ s : RetrySys .default, (retryLts .default 3).Reachable s ∧
    s.Quiet ∧ (s.store.find? (sendKey 1 7)).isSome ∧
    s.monitor.pending.map.find? (sendKey 1 7) = none := by
  obtain ⟨s, hs, hp⟩ := (retryLts .default 3).execWhen_reachable Lts.always rfl fullMapRun
    (fun s => s.send 0 = .returned 0 ∧ s.callback 0 = .idle ∧ s.monitor.call 0 = .returned ∧
      s.begun = 1 ∧ s.monitor.begun = 1 ∧ (s.store.find? (sendKey 1 7)).isSome ∧
      s.monitor.pending.map.find? (sendKey 1 7) = none) (by decide +kernel)
  obtain ⟨hsend, hcb, hcall, hbegun, hmbegun, hstored, hpend⟩ := of_decide_eq_true hp
  refine ⟨s, hs, quiet_of_begun hs (fun j hj => ?_) (fun p hp => ?_), hstored, hpend⟩
  · obtain rfl : j = 0 := by omega
    exact ⟨0, hsend⟩
  · obtain rfl : p = 0 := by omega
    exact ⟨hcb, hcall⟩

end RetrySys

end AsyncSqlite
