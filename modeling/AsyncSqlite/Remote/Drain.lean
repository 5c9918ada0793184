import AsyncSqlite.Remote.Monitor

/-!
# AsyncSqlite.Remote.Drain — one call of `TransportMonitor::Process`

The restart loop of `Process` over the passes of `Pending.pass`, with what
subscribers add while a pass reports its items. The number of passes is not
known beforehand, so the loop has fuel.

What bounds it is the number of entries from before the call (`oldCount`): a
clock that advances by less than the timeout makes no other entry expire, and a
pass that restarts the loop has taken a full buffer of them.
-/

namespace AsyncSqlite

/-- A call of `Add`, and what `Clock::now()` returns in it. -/
structure AddCall where
  seqNum : UInt16
  remoteId : DelegateRemoteId
  now : ℤ

/-- What a call of `Process` meets: the clock in each pass, and the calls of `Add`
that subscribers make while the pass reports its items. -/
structure ProcessEnv where
  clock : ℕ → ℤ
  adds : ℕ → List TimeoutData → List AddCall

/-- `passes` is how many passes have locked a map with entries; `tracked` is what
the calls of `Add` entered. -/
structure ProcessResult (cfg : MonitorConfig) where
  passes : ℕ
  pending : Pending cfg
  tracked : List TimeoutData

namespace Pending

variable {cfg : MonitorConfig}

/-- Calls of `Add` in order, with the entries that they make. -/
def addAll (p : Pending cfg) : List AddCall → Pending cfg × List TimeoutData
  | [] => (p, [])
  | a :: as =>
    let r := p.add a.seqNum a.remoteId a.now
    let rest := r.pending.addAll as
    (rest.1, r.tracked.toList ++ rest.2)

/-- `Process` from pass `i` on. -/
def process (env : ProcessEnv) : ℕ → ℕ → Pending cfg → Option (ProcessResult cfg)
  | 0, _, _ => none
  | fuel + 1, i, p =>
    if p.map.size = 0 then some ⟨i, p, []⟩
    else
      let r := p.pass (env.clock i)
      let added := r.pending.addAll (env.adds i r.items)
      if r.items.length = cfg.maxExpired then
        (process env fuel (i + 1) added.1).map fun rest =>
          { rest with tracked := added.2 ++ rest.tracked }
      else some ⟨i + 1, added.1, added.2⟩

variable {p : Pending cfg} {e : ℕ × TimeoutData} {d : TimeoutData} {as : List AddCall}
variable {t₀ now : ℤ}

/-! ## What `Add` keeps -/

theorem mem_add_of_mem (h : e ∈ p.map.entries) (seqNum : UInt16) (remoteId : DelegateRemoteId)
    (now : ℤ) : e ∈ (p.add seqNum remoteId now).pending.map.entries := by
  by_cases hadm : p.Admits seqNum remoteId
  · obtain ⟨hmap, -, -⟩ := add_of_admits hadm now
    rw [hmap]
    refine (OrderedMap.mem_insert e).mpr (Or.inr ⟨h, ?_⟩)
    exact OrderedMap.find?_eq_none.mp hadm.2 e h
  · rw [(add_of_not_admits hadm now).1]
    exact h

theorem mem_of_mem_add {seqNum : UInt16} {remoteId : DelegateRemoteId}
    (h : e ∈ (p.add seqNum remoteId now).pending.map.entries) :
    e ∈ p.map.entries ∨ e.2.timeStamp = now := by
  by_cases hadm : p.Admits seqNum remoteId
  · obtain ⟨hmap, -, -⟩ := add_of_admits hadm now
    rw [hmap] at h
    rcases (OrderedMap.mem_insert e).mp h with rfl | h
    · exact Or.inr rfl
    · exact Or.inl h.1
  · rw [(add_of_not_admits hadm now).1] at h
    exact Or.inl h

theorem mem_add_of_tracked {seqNum : UInt16} {remoteId : DelegateRemoteId}
    (h : (p.add seqNum remoteId now).tracked = some d) :
    (d.key, d) ∈ (p.add seqNum remoteId now).pending.map.entries ∧ d.timeStamp = now := by
  by_cases hadm : p.Admits seqNum remoteId
  · obtain ⟨hmap, -, htr⟩ := add_of_admits hadm now
    rw [htr, Option.some.injEq] at h
    subst h
    rw [hmap]
    exact ⟨(OrderedMap.mem_insert _).mpr (Or.inl rfl), rfl⟩
  · rw [(add_of_not_admits hadm now).2.1] at h
    cases h

theorem mem_addAll_of_mem (h : e ∈ p.map.entries) : e ∈ (p.addAll as).1.map.entries := by
  induction as generalizing p with
  | nil => exact h
  | cons a as ih => exact ih (mem_add_of_mem h a.seqNum a.remoteId a.now)

theorem mem_of_mem_addAll (h : e ∈ (p.addAll as).1.map.entries) :
    e ∈ p.map.entries ∨ ∃ a ∈ as, e.2.timeStamp = a.now := by
  induction as generalizing p with
  | nil => exact Or.inl h
  | cons a as ih =>
    rcases ih h with hadd | ⟨b, hb, hnow⟩
    · rcases mem_of_mem_add hadd with hp | hnow
      · exact Or.inl hp
      · exact Or.inr ⟨a, List.mem_cons_self, hnow⟩
    · exact Or.inr ⟨b, List.mem_cons_of_mem _ hb, hnow⟩

theorem mem_addAll_of_tracked (h : d ∈ (p.addAll as).2) :
    (d.key, d) ∈ (p.addAll as).1.map.entries ∧ ∃ a ∈ as, d.timeStamp = a.now := by
  induction as generalizing p with
  | nil => exact absurd h List.not_mem_nil
  | cons a as ih =>
    rcases List.mem_append.mp h with h | h
    · obtain ⟨hmem, hnow⟩ := mem_add_of_tracked (Option.mem_toList.mp h)
      have hrest : (d.key, d) ∈
          ((p.add a.seqNum a.remoteId a.now).pending.addAll as).1.map.entries :=
        mem_addAll_of_mem hmem
      exact ⟨hrest, a, List.mem_cons_self, hnow⟩
    · obtain ⟨hmem, b, hb, hnow⟩ := ih h
      exact ⟨hmem, b, List.mem_cons_of_mem _ hb, hnow⟩

/-! ## Entries from before the call -/

/-- How many entries are older than `t₀`. -/
def oldCount (p : Pending cfg) (t₀ : ℤ) : ℕ := p.data.countP fun d => d.timeStamp < t₀

/-- Fresh entries do not count. -/
theorem oldCount_addAll (hfresh : ∀ a ∈ as, t₀ ≤ a.now) :
    (p.addAll as).1.oldCount t₀ = p.oldCount t₀ := by
  induction as generalizing p with
  | nil => rfl
  | cons a as ih =>
    refine (ih fun b hb => hfresh b (List.mem_cons_of_mem _ hb)).trans ?_
    have hnow := hfresh a List.mem_cons_self
    unfold oldCount
    rw [(data_add p a.seqNum a.remoteId a.now).countP_eq, List.countP_append]
    have hnone : (p.add a.seqNum a.remoteId a.now).tracked.toList.countP
        (fun d => d.timeStamp < t₀) = 0 := by
      refine List.countP_eq_zero.mpr fun d hd => ?_
      have hd' := (mem_add_of_tracked (Option.mem_toList.mp hd)).2
      simp only [decide_eq_true_eq]
      omega
    rw [hnone, Nat.zero_add]

/-- What a pass takes has expired. -/
theorem expired_of_mem_items (h : d ∈ (p.pass now).items) :
    cfg.timeout < now - d.timeStamp := by
  rw [items_pass] at h
  obtain ⟨e, he, rfl⟩ := List.mem_map.mp h
  rw [scan_eq] at he
  have hexp := (List.mem_filter.mp (List.mem_of_mem_take he)).2
  simpa [expired] using hexp

/-- A pass takes entries from before the call only. -/
theorem oldCount_pass (hnow : now - t₀ < cfg.timeout) :
    p.oldCount t₀ = (p.pass now).items.length + (p.pass now).pending.oldCount t₀ := by
  unfold oldCount
  rw [(data_pass p now).countP_eq, List.countP_append]
  have hall : (p.pass now).items.countP (fun d => d.timeStamp < t₀) =
      (p.pass now).items.length := by
    refine List.countP_eq_length.mpr fun d hd => ?_
    have hexp := expired_of_mem_items hd
    simp only [decide_eq_true_eq]
    omega
  rw [hall]

/-- A pass that does not fill the buffer has taken all that had expired. -/
theorem expired_pass_eq_false (hshort : (p.pass now).items.length < cfg.maxExpired)
    (he : e ∈ (p.pass now).pending.map.entries) : expired cfg now e = false := by
  obtain ⟨hmem, hnot⟩ := mem_pass.mp he
  by_contra hexp
  rw [Bool.not_eq_false] at hexp
  apply hnot
  have hlen : (p.map.entries.filter (expired cfg now)).length < cfg.maxExpired := by
    have hmin := length_items p now
    unfold expiredCount at hmin
    omega
  rw [scan_eq, Nat.sub_zero, List.take_of_length_le (by omega)]
  exact List.mem_filter.mpr ⟨hmem, hexp⟩

/-- A pass leaves what has not expired. -/
theorem mem_pass_of_not_expired (he : e ∈ p.map.entries) (hexp : expired cfg now e = false) :
    e ∈ (p.pass now).pending.map.entries := by
  refine mem_pass.mpr ⟨he, fun hscan => ?_⟩
  rw [scan_eq] at hscan
  have htrue := (List.mem_filter.mp (List.mem_of_mem_take hscan)).2
  rw [hexp] at htrue
  cases htrue

theorem expired_mono (h : t₀ ≤ now) (hexp : expired cfg now e = false) :
    expired cfg t₀ e = false := by
  simp only [expired, decide_eq_false_iff_not, not_lt] at hexp ⊢
  omega

/-! ## The loop -/

/-- The clock does not go back, and advances by less than the timeout from the
beginning of the call; what is added is fresh. -/
structure Within (cfg : MonitorConfig) (env : ProcessEnv) (t₀ : ℤ) : Prop where
  start : t₀ ≤ env.clock 0
  mono : ∀ i j, i ≤ j → env.clock i ≤ env.clock j
  advance : ∀ i, env.clock i - t₀ < cfg.timeout
  fresh : ∀ i items, ∀ a ∈ env.adds i items, t₀ ≤ a.now

theorem Within.after {env : ProcessEnv} (h : Within cfg env t₀) (i : ℕ) : t₀ ≤ env.clock i :=
  h.start.trans (h.mono 0 i (Nat.zero_le i))

/-- Fresh entries have not expired. -/
theorem not_expired_of_fresh (hnow : now - t₀ < cfg.timeout) (he : t₀ ≤ e.2.timeStamp) :
    expired cfg now e = false := by
  simp only [expired, decide_eq_false_iff_not, not_lt]
  omega

theorem process_from {env : ProcessEnv} (hmax : 0 < cfg.maxExpired) (h : Within cfg env t₀)
    (fuel : ℕ) : ∀ (i : ℕ) (p : Pending cfg), p.oldCount t₀ < fuel →
      ∃ r, process env fuel i p = some r ∧ i ≤ r.passes ∧
        (∀ e ∈ r.pending.map.entries, expired cfg t₀ e = false) ∧
        (∀ e ∈ p.map.entries, (∀ j, j < r.passes → expired cfg (env.clock j) e = false) →
          e ∈ r.pending.map.entries) ∧
        ∀ d ∈ r.tracked, (d.key, d) ∈ r.pending.map.entries := by
  induction fuel with
  | zero => exact fun i p hlt => absurd hlt (Nat.not_lt_zero _)
  | succ fuel ih =>
    intro i p hlt
    unfold process
    by_cases hempty : p.map.size = 0
    · have hnil : p.map.entries = [] := List.length_eq_zero_iff.mp hempty
      refine ⟨⟨i, p, []⟩, by rw [if_pos hempty], Nat.le_refl i, ?_, fun e he _ => he, ?_⟩
      · simp [hnil]
      · exact fun d hd => absurd hd List.not_mem_nil
    · have hfresh := h.fresh i (p.pass (env.clock i)).items
      have hkeep : ∀ e ∈ p.map.entries, expired cfg (env.clock i) e = false →
          e ∈ ((p.pass (env.clock i)).pending.addAll
            (env.adds i (p.pass (env.clock i)).items)).1.map.entries :=
        fun e he hexp => mem_addAll_of_mem (mem_pass_of_not_expired he hexp)
      rw [if_neg hempty]
      by_cases hfull : (p.pass (env.clock i)).items.length = cfg.maxExpired
      · -- the buffer is full, so at least one old entry has gone
        have hold := oldCount_pass (p := p) (h.advance i)
        have hless : ((p.pass (env.clock i)).pending.addAll
            (env.adds i (p.pass (env.clock i)).items)).1.oldCount t₀ < fuel := by
          rw [oldCount_addAll hfresh]
          omega
        obtain ⟨r, hr, hpasses, hdrained, hkept, htracked⟩ := ih (i + 1) _ hless
        simp only [hfull, if_true, hr, Option.map_some]
        refine ⟨_, rfl, by simpa using Nat.le_of_succ_le hpasses, hdrained, ?_, ?_⟩
        · intro e he hexp
          exact hkept e (hkeep e he (hexp i hpasses)) hexp
        · intro d hd
          rcases List.mem_append.mp hd with hd | hd
          · -- what was added in this pass is fresh in all passes to come
            obtain ⟨hmem, a, ha, hnow⟩ := mem_addAll_of_tracked hd
            have hd₀ : t₀ ≤ d.timeStamp := by
              rw [hnow]
              exact hfresh a ha
            exact hkept _ hmem fun j _ => not_expired_of_fresh (h.advance j) hd₀
          · exact htracked d hd
      · have hshort : (p.pass (env.clock i)).items.length < cfg.maxExpired := by
          have hmin := length_items p (env.clock i)
          omega
        simp only [hfull, if_false]
        refine ⟨_, rfl, Nat.le_succ i, ?_, ?_, ?_⟩
        · intro e he
          rcases mem_of_mem_addAll he with he | ⟨a, ha, hnow⟩
          · exact expired_mono (h.after i) (expired_pass_eq_false hshort he)
          · have htimeout : t₀ - t₀ < cfg.timeout := by
              have hadvance := h.advance i
              have hafter := h.after i
              omega
            refine not_expired_of_fresh htimeout ?_
            rw [hnow]
            exact hfresh a ha
        · exact fun e he hexp => hkeep e he (hexp i (Nat.lt_succ_self i))
        · exact fun d hd => (mem_addAll_of_tracked hd).1

/-- One call of `Process` returns. No entry that had expired when it began is
pending then; an entry that has not expired by the last pass still is, and so is
what was added meanwhile. -/
theorem process_drains {env : ProcessEnv} (hmax : 0 < cfg.maxExpired) (h : Within cfg env t₀)
    (p : Pending cfg) :
    ∃ fuel r, process env fuel 0 p = some r ∧
      (∀ e ∈ r.pending.map.entries, expired cfg t₀ e = false) ∧
      (∀ e ∈ p.map.entries, expired cfg (env.clock (r.passes - 1)) e = false →
        e ∈ r.pending.map.entries) ∧
      ∀ d ∈ r.tracked, (d.key, d) ∈ r.pending.map.entries := by
  obtain ⟨r, hr, -, hdrained, hkept, htracked⟩ :=
    process_from hmax h (p.oldCount t₀ + 1) 0 p (Nat.lt_succ_self _)
  refine ⟨_, r, hr, hdrained, fun e he hexp => hkept e he fun j hj => ?_, htracked⟩
  exact expired_mono (h.mono j (r.passes - 1) (Nat.le_sub_one_of_lt hj)) hexp

/-! ## A concrete call -/

/-- Buffers of two cells, a timeout of 100. -/
def smallBuffer : MonitorConfig := ⟨10, 2, 100⟩

/-- Four messages from the time 0 and one from 150. -/
def backlog : Pending smallBuffer :=
  (Pending.empty.addAll
    [⟨1, 7, 0⟩, ⟨2, 7, 0⟩, ⟨3, 7, 0⟩, ⟨4, 7, 0⟩, ⟨5, 7, 150⟩]).1

/-- Subscribers send every message that timed out again. -/
def resending : ProcessEnv where
  clock _ := 200
  adds _ items := items.map fun d => ⟨d.seqNum, d.remoteId, 200⟩

theorem within_resending : Within smallBuffer resending 200 where
  start := le_rfl
  mono := fun _ _ _ => le_rfl
  advance := fun _ => show (200 : ℤ) - 200 < 100 by decide
  fresh := by
    intro i items a ha
    obtain ⟨d, -, rfl⟩ := List.mem_map.mp ha
    exact le_rfl

theorem process_drains_resending : ∃ fuel r, process resending fuel 0 backlog = some r ∧
    (∀ e ∈ r.pending.map.entries, expired smallBuffer 200 e = false) ∧
    (sendKey 7 5, ⟨7, 5, 150⟩) ∈ r.pending.map.entries := by
  obtain ⟨fuel, r, hr, hdrained, hkept, -⟩ :=
    process_drains (by decide) within_resending backlog
  have hmem : (sendKey 7 5, (⟨7, 5, 150⟩ : TimeoutData)) ∈ backlog.map.entries := by
    decide +kernel
  exact ⟨fuel, r, hr, hdrained, hkept _ hmem rfl⟩

/-- Two passes with a full buffer, and one that finds nothing. -/
example : (process resending 5 0 backlog).map (fun r => (r.passes, r.pending.map.size)) =
    some (3, 5) := by
  decide +kernel

end Pending

end AsyncSqlite
