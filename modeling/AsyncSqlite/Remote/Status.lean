import AsyncSqlite.Remote.Monitor
import AsyncSqlite.Lts.History

/-!
# AsyncSqlite.Remote.Status — one status for each entry

What a call has removed and not reported is what it owes (`owed`). As long as
no pass writes to a cell that another pass has still to read (`BufferFree`), a
call emits exactly what it owes, in order, so every entry that left the pending
map is reported once, by the call that removed it, with its own identity.

All passes share `m_expiredItems`, so nothing in the code ensures `BufferFree`:
an overlapping or nested pass that collects more than the other one has already
reported replaces entries that the other one has still to report.
-/

namespace AsyncSqlite

namespace MonitorSys

variable {cfg : MonitorConfig} {s : MonitorSys cfg}

/-! ## The property -/

def timeoutOf (p : ℕ) (d : TimeoutData) : ℕ × StatusReport :=
  (p, ⟨d.remoteId, d.seqNum, .timeout⟩)

/-- What call `p` has removed and has not reported yet. -/
def owed (s : MonitorSys cfg) (p : ℕ) : List (ℕ × StatusReport) :=
  match s.call p with
  | .removed d _ => [(p, ⟨d.remoteId, d.seqNum, .success⟩)]
  | .firing .. => (s.taken p).map (timeoutOf p)
  | _ => []

/-- Every entry that leaves is reported once and nothing else is. -/
structure OneStatus (s : MonitorSys cfg) : Prop where
  /-- an entry that was added is pending or has left -/
  conserved : s.added.Perm (s.pending.data ++ s.left.map Departure.data)
  /-- call by call, what left has been emitted, in order, or is owed -/
  reported : ClassFifo Prod.fst (s.left.map Departure.report) s.emitted s.owed
  /-- a call that owes a status emits that one next -/
  next : ∀ p, s.emission p = (s.owed p).head?.map Prod.snd
  capped : s.pending.map.size ≤ cfg.maxPending

/-- When no call is in progress, the statuses emitted are those of the entries
that left. -/
theorem OneStatus.quiet (h : OneStatus s) (hq : ∀ p, s.owed p = []) :
    (s.left.map Departure.report).Perm s.emitted := by
  have hperm : (s.left.map Departure.report).Perm (s.emitted ++ []) :=
    h.reported.perm fun p => (hq p).symm
  rw [List.append_nil] at hperm
  exact hperm

/-- The first cell that a pass has still to read. -/
def MonitorPc.unread : MonitorPc → Option ℕ
  | .firing next count _ => if next < count then some next else none
  | _ => none

/-- A pass collects no more than every other pass with statuses left to report
has already reported. -/
def BufferFree : MonitorLabel → MonitorSys cfg → Prop
  | .pass p now, s => ∀ q < s.begun, q ≠ p → ∀ next ∈ MonitorPc.unread (s.call q),
      s.pending.expiredCount now ≤ next
  | _, _ => True

/-! ## Invariant -/

structure StatusInv (s : MonitorSys cfg) : Prop where
  conserved : s.added.Perm (s.pending.data ++ s.left.map Departure.data)
  reported : ClassFifo Prod.fst (s.left.map Departure.report) s.emitted s.owed
  fresh : ∀ p, s.begun ≤ p → s.call p = .idle
  removed : ∀ p d n, s.call p = .removed d n → d.seqNum = n
  /-- the cells a pass has still to read hold what it took -/
  cells : ∀ p next count r, s.call p = .firing next count r → next ≤ count ∧
    (s.taken p).map ExpiredItem.ofData = (List.range' next (count - next)).map s.expiredItems

theorem owed_eq_of_call {s' : MonitorSys cfg} {p : ℕ} (hc : s'.call p = s.call p)
    (ht : s'.taken p = s.taken p) : s'.owed p = s.owed p := by
  unfold owed
  rw [hc, ht]

theorem owed_idle {p : ℕ} (h : s.call p = .idle) : s.owed p = [] := by
  unfold owed
  rw [h]

theorem StatusInv.initial : StatusInv (initial cfg) := by
  constructor
  · exact List.Perm.refl _
  · exact ClassFifo.nil fun p => rfl
  · exact fun p _ => rfl
  · intro p d n h
    cases h
  · intro p next count r h
    cases h

/-- The class of a report is its call. -/
theorem ofClass_reports (p q : ℕ) (ds : List TimeoutData) (x : Exit) :
    ofClass Prod.fst q ((ds.map fun d => (⟨p, d, x⟩ : Departure)).map Departure.report) =
      if q = p then (ds.map fun d => (⟨p, d, x⟩ : Departure)).map Departure.report else [] := by
  unfold ofClass
  split_ifs with h
  · refine List.filter_eq_self.mpr fun a ha => ?_
    simp only [List.map_map, List.mem_map] at ha
    obtain ⟨d, -, rfl⟩ := ha
    simp [Departure.report, h]
  · refine List.filter_eq_nil_iff.mpr fun a ha => ?_
    simp only [List.map_map, List.mem_map] at ha
    obtain ⟨d, -, rfl⟩ := ha
    simp [Departure.report, Ne.symm h]

/-! ### One lemma for each step -/

theorem StatusInv.add (h : StatusInv s) (seqNum : UInt16) (remoteId : DelegateRemoteId)
    (now : ℤ) : StatusInv (s.add seqNum remoteId now) := by
  obtain ⟨hcons, hrep, hfresh, hrem, hcells⟩ := h
  refine ⟨?_, hrep, hfresh, hrem, hcells⟩
  have hdata := s.pending.data_add seqNum remoteId now
  show (s.added ++ _).Perm (Pending.data _ ++ _)
  refine List.perm_append_comm.trans ((hcons.append_left _).trans ?_)
  rw [← List.append_assoc]
  exact hdata.symm.append_right _

/-- A call that owes nothing moves to a place where it owes nothing. -/
theorem StatusInv.relabel (h : StatusInv s) {s' : MonitorSys cfg} {p : ℕ} {pc : MonitorPc}
    (howes : s.owed p = []) (hpc : pc = .passing ∨ pc = .returned)
    (hp : p < s'.begun) (hbegun : s.begun ≤ s'.begun)
    (hcall : s'.call = Function.update s.call p pc) (hpend : s'.pending = s.pending)
    (hcells : s'.expiredItems = s.expiredItems) (htaken : s'.taken = s.taken)
    (hadded : s'.added = s.added) (hleft : s'.left = s.left)
    (hemit : s'.emitted = s.emitted) : StatusInv s' := by
  -- no call owes more or less than before
  have howed : ∀ q, s'.owed q = s.owed q := by
    intro q
    by_cases hq : q = p
    · subst hq
      rw [howes]
      unfold owed
      rw [hcall, Function.update_self]
      rcases hpc with rfl | rfl <;> rfl
    · exact owed_eq_of_call (by simp [hcall, hq]) (by rw [htaken])
  have hnew : (∀ d n, pc ≠ .removed d n) ∧ ∀ a b c, pc ≠ .firing a b c := by
    rcases hpc with rfl | rfl <;> simp
  constructor
  · rw [hadded, hpend, hleft]
    exact h.conserved
  · rw [hleft, hemit]
    refine ⟨fun q => ?_⟩
    rw [howed q]
    exact h.reported.log q
  · intro q hq
    have hne : q ≠ p := by omega
    simpa [hcall, hne] using h.fresh q (hbegun.trans hq)
  · intro q d n hq
    by_cases hqp : q = p
    · subst hqp
      exact absurd (by simpa [hcall] using hq) (hnew.1 d n)
    · exact h.removed q d n (by simpa [hcall, hqp] using hq)
  · intro q next count r hq
    by_cases hqp : q = p
    · subst hqp
      exact absurd (by simpa [hcall] using hq) (hnew.2 next count r)
    · rw [htaken, hcells]
      exact h.cells q next count r (by simpa [hcall, hqp] using hq)

/-- Entries that call `p` takes out of the map, which it then owes. -/
theorem StatusInv.depart (h : StatusInv s) (p : ℕ) (ds : List TimeoutData) (x : Exit)
    (pending : Pending cfg) (owed' : ℕ → List (ℕ × StatusReport))
    (hdata : s.pending.data.Perm (ds ++ pending.data)) (howes : s.owed p = [])
    (hp : owed' p = (ds.map fun d => (⟨p, d, x⟩ : Departure)).map Departure.report)
    (hother : ∀ q, q ≠ p → owed' q = s.owed q) :
    s.added.Perm (pending.data ++
        (s.left ++ ds.map fun d => (⟨p, d, x⟩ : Departure)).map Departure.data) ∧
      ClassFifo Prod.fst
        ((s.left ++ ds.map fun d => (⟨p, d, x⟩ : Departure)).map Departure.report)
        s.emitted owed' := by
  constructor
  · have hds : (ds.map fun d => (⟨p, d, x⟩ : Departure)).map Departure.data = ds := by
      simp [Function.comp_def]
    rw [List.map_append, hds, ← List.append_assoc]
    refine h.conserved.trans ((hdata.append_right _).trans ?_)
    rw [List.append_assoc]
    exact List.perm_append_comm
  · rw [List.map_append]
    refine ⟨fun q => ?_⟩
    rw [ofClass_append, ofClass_reports p q ds x, h.reported.log q, List.append_assoc]
    congr 1
    by_cases hq : q = p
    · subst hq
      rw [howes, hp, if_pos rfl, List.nil_append]
    · rw [hother q hq, if_neg hq, List.append_nil]

theorem StatusInv.remove (h : StatusInv s) (seqNum : UInt16) (remoteId : DelegateRemoteId) :
    StatusInv (s.remove seqNum remoteId) := by
  have howes : s.owed s.begun = [] := owed_idle (h.fresh s.begun le_rfl)
  cases hl : s.pending.lookup seqNum remoteId with
  | none =>
    unfold MonitorSys.remove
    rw [Pending.remove_of_none hl]
    exact h.relabel howes (Or.inr rfl) (Nat.lt_succ_self _) (Nat.le_succ _) rfl rfl rfl rfl rfl
      rfl rfl
  -- the entry leaves the map, and the call owes its report
  | some d =>
    obtain ⟨hfind, hseq, -⟩ := Pending.lookup_some hl
    unfold MonitorSys.remove
    rw [Pending.remove_of_some hl]
    obtain ⟨hcons, hrep⟩ := h.depart s.begun [d] .remove (s.pending.erase d.key)
      (owed { s with
        pending := s.pending.erase d.key
        begun := s.begun + 1
        call := Function.update s.call s.begun (.removed d seqNum)
        left := s.left ++ [⟨s.begun, d, .remove⟩] })
      (Pending.data_erase hfind) howes
      (by simp [owed, Departure.report, Exit.status])
      (fun q hq => owed_eq_of_call (by simp [hq]) rfl)
    refine ⟨hcons, hrep, ?_, ?_, ?_⟩
    · intro q hq
      have hq' : s.begun + 1 ≤ q := hq
      have hne : q ≠ s.begun := by omega
      simpa [hne] using h.fresh q (by omega)
    · intro q d' n hq
      by_cases hqs : q = s.begun
      · subst hqs
        have hpair : d = d' ∧ seqNum = n := by simpa using hq
        rw [← hpair.1, ← hpair.2]
        exact hseq
      · exact h.removed q d' n (by simpa [hqs] using hq)
    · intro q next count r hq
      by_cases hqs : q = s.begun
      · subst hqs
        simp at hq
      · exact h.cells q next count r (by simpa [hqs] using hq)

/-- Cells behind the ones that are written keep what they hold. -/
theorem writeItems_of_le {items : List TimeoutData} {cells : ℕ → ExpiredItem} {i : ℕ}
    (h : items.length ≤ i) : writeItems items cells i = cells i := by
  unfold writeItems
  rw [List.getElem?_eq_none h]
  rfl

theorem map_writeItems (items : List TimeoutData) (cells : ℕ → ExpiredItem) :
    (List.range' 0 items.length).map (writeItems items cells) =
      items.map ExpiredItem.ofData := by
  refine List.ext_getElem (by simp) fun i hi _ => ?_
  have hlt : i < items.length := by simpa using hi
  simp [writeItems, List.getElem?_eq_getElem hlt]

theorem StatusInv.pass (h : StatusInv s) {p : ℕ} {now : ℤ} (hg : s.call p = .passing)
    (hok : BufferFree (.pass p now) s) : StatusInv (s.pass p now) := by
  have howes : s.owed p = [] := by
    unfold owed
    rw [hg]
  have hp : p < s.begun := by
    by_contra hle
    rw [h.fresh p (by omega)] at hg
    cases hg
  unfold MonitorSys.pass
  split_ifs with hempty
  · exact h.relabel howes (Or.inr rfl) hp le_rfl rfl rfl rfl rfl rfl rfl rfl
  · set r := s.pending.pass now with hr
    obtain ⟨hcons, hrep⟩ := h.depart p r.items .process r.pending
      (owed { s with
        pending := r.pending
        expiredItems := writeItems r.items s.expiredItems
        call := Function.update s.call p (.firing 0 r.items.length r.remaining)
        taken := Function.update s.taken p r.items
        left := s.left ++ r.items.map fun d => ⟨p, d, .process⟩ })
      (Pending.data_pass s.pending now) howes
      (by simp [owed, timeoutOf, Departure.report, Exit.status])
      (fun q hq => owed_eq_of_call (by simp [hq]) (by simp [hq]))
    refine ⟨hcons, hrep, ?_, ?_, ?_⟩
    · intro q hq
      have hq' : s.begun ≤ q := hq
      have hne : q ≠ p := by omega
      simpa [hne] using h.fresh q hq
    · intro q d n hq
      by_cases hqp : q = p
      · subst hqp
        simp at hq
      · exact h.removed q d n (by simpa [hqp] using hq)
    · intro q next count rem hq
      by_cases hqp : q = p
      · subst hqp
        obtain ⟨rfl, rfl, -⟩ : 0 = next ∧ r.items.length = count ∧ r.remaining = rem := by
          simpa using hq
        refine ⟨Nat.zero_le _, ?_⟩
        simpa using (map_writeItems r.items s.expiredItems).symm
      · have hq' : s.call q = .firing next count rem := by simpa [hqp] using hq
        obtain ⟨hle, hcells⟩ := h.cells q next count rem hq'
        refine ⟨hle, ?_⟩
        show (Function.update s.taken p r.items q).map _ = _
        rw [Function.update_of_ne hqp, hcells]
        -- what `p` writes lies in front of what `q` has still to read
        refine List.map_congr_left fun i hi => ?_
        obtain ⟨hi₁, hi₂⟩ : next ≤ i ∧ i < next + (count - next) := by simpa using hi
        have hqb : q < s.begun := by
          by_contra hge
          rw [h.fresh q (by omega)] at hq'
          cases hq'
        have hfree := hok q hqb hqp next (by
          rw [hq']
          simp [MonitorPc.unread]
          omega)
        refine (writeItems_of_le ?_).symm
        rw [hr, Pending.length_items]
        omega

/-- What a pass took and what the cells hold, item by item. -/
theorem StatusInv.taken_cons (h : StatusInv s) {p next count r : ℕ}
    (hc : s.call p = .firing next count r) (hlt : next < count) :
    ∃ d ds, s.taken p = d :: ds ∧ s.expiredItems next = .ofData d ∧
      ds.map ExpiredItem.ofData =
        (List.range' (next + 1) (count - (next + 1))).map s.expiredItems := by
  obtain ⟨-, hcells⟩ := h.cells p next count r hc
  obtain ⟨n, hn⟩ : ∃ n, count - next = n + 1 := ⟨count - next - 1, by omega⟩
  have hn' : count - (next + 1) = n := by omega
  rw [hn, List.range'_succ, List.map_cons] at hcells
  obtain ⟨d, ds, htaken, hd, hds⟩ := List.map_eq_cons_iff.mp hcells
  exact ⟨d, ds, htaken, hd.symm, by rw [hn', hds]⟩

theorem StatusInv.taken_nil (h : StatusInv s) {p next count r : ℕ}
    (hc : s.call p = .firing next count r) (hge : count ≤ next) : s.taken p = [] := by
  obtain ⟨-, hcells⟩ := h.cells p next count r hc
  rw [Nat.sub_eq_zero_of_le hge] at hcells
  exact List.map_eq_nil_iff.mp hcells

/-- A call emits the first of the statuses that it owes. -/
theorem StatusInv.emission_eq (h : StatusInv s) (p : ℕ) :
    s.emission p = (s.owed p).head?.map Prod.snd := by
  unfold emission owed
  cases hc : s.call p with
  | removed d n =>
    have hn : d.seqNum = n := h.removed p d n hc
    simp [hn]
  | firing next count r =>
    by_cases hlt : next < count
    · obtain ⟨d, ds, htaken, hd, -⟩ := h.taken_cons hc hlt
      simp [hlt, htaken, hd, ExpiredItem.ofData, timeoutOf]
    · simp [hlt, h.taken_nil hc (not_lt.mp hlt)]
  | idle | passing | returned => rfl

/-- What a call owes after it has emitted a status. -/
theorem StatusInv.owed_fire (h : StatusInv s) {p : ℕ} {r : StatusReport}
    (he : s.emission p = some r) : s.owed p = (p, r) :: (s.fire p).owed p := by
  have hhead := h.emission_eq p
  rw [he] at hhead
  unfold fire
  unfold owed at hhead ⊢
  simp only [Function.update_self]
  cases hc : s.call p with
  | removed d n =>
    rw [hc] at hhead
    simp only [List.head?_cons, Option.map_some, Option.some.injEq] at hhead
    simp [hhead]
  | firing next count rem =>
    rw [hc] at hhead
    cases ht : s.taken p with
    | nil => simp [ht] at hhead
    | cons d ds =>
      rw [ht] at hhead
      simp only [List.map_cons, List.head?_cons, Option.map_some, Option.some.injEq] at hhead
      simp [hhead, timeoutOf]
  | idle | passing | returned => simp [hc] at hhead

theorem StatusInv.fire (h : StatusInv s) {p : ℕ} (hg : s.emission p ≠ none) :
    StatusInv (s.fire p) := by
  obtain ⟨r, hr⟩ := Option.ne_none_iff_exists'.mp hg
  have hother : ∀ q, q ≠ p → (s.fire p).owed q = s.owed q := by
    intro q hq
    exact owed_eq_of_call (by simp [MonitorSys.fire, hq]) (by simp [MonitorSys.fire, hq])
  have hactive : s.call p ≠ .idle := by
    intro hidle
    simp [emission, hidle] at hr
  have hemit : (s.fire p).emitted = s.emitted ++ [(p, r)] := by
    simp [MonitorSys.fire, hr]
  constructor
  · exact h.conserved
  · rw [hemit]
    refine h.reported.remove [(p, r)] fun q => ?_
    by_cases hq : q = p
    · subst hq
      rw [h.owed_fire hr]
      simp [ofClass]
    · rw [hother q hq]
      simp [ofClass, Ne.symm hq]
  · intro q hq
    have hne : q ≠ p := by
      rintro rfl
      exact hactive (h.fresh q hq)
    simpa [MonitorSys.fire, hne] using h.fresh q hq
  · intro q d n hq
    by_cases hqp : q = p
    · subst hqp
      simp only [MonitorSys.fire, Function.update_self] at hq
      split at hq <;> cases hq
    · exact h.removed q d n (by simpa [MonitorSys.fire, hqp] using hq)
  · intro q next count rem hq
    by_cases hqp : q = p
    · subst hqp
      cases hc : s.call q with
      | firing next' count' rem' =>
        obtain ⟨rfl, rfl, rfl⟩ : next' + 1 = next ∧ count' = count ∧ rem' = rem := by
          simpa [MonitorSys.fire, hc] using hq
        -- the loop goes on, so one of the entries it took is left
        have hlt : next' < count' := by
          by_contra hge
          simp [emission, hc, hge] at hr
        obtain ⟨d, ds, htaken, -, hds⟩ := h.taken_cons hc hlt
        refine ⟨hlt, ?_⟩
        simpa [MonitorSys.fire, htaken] using hds
      | idle | passing | returned | removed => simp [MonitorSys.fire, hc] at hq
    · have hcells := h.cells q next count rem (by simpa [MonitorSys.fire, hqp] using hq)
      simpa [MonitorSys.fire, hqp] using hcells

theorem StatusInv.finish (h : StatusInv s) {p : ℕ} (hg : guard (.finish p) s) :
    StatusInv (s.finish p) := by
  cases hc : s.call p with
  | firing next count r =>
    have hnext : next = count := by simpa [guard, hc] using hg
    subst hnext
    have howes : s.owed p = [] := by
      unfold owed
      rw [hc, h.taken_nil hc le_rfl]
      rfl
    have hp : p < s.begun := by
      by_contra hge
      rw [h.fresh p (by omega)] at hc
      cases hc
    unfold MonitorSys.finish
    rw [hc]
    refine h.relabel howes ?_ hp le_rfl rfl rfl rfl rfl rfl rfl rfl
    split_ifs
    · exact Or.inl rfl
    · exact Or.inr rfl
  | idle | passing | returned | removed => simp [guard, hc] at hg

/-! ## Every reachable state -/

theorem StatusInv.step {l : MonitorLabel} (h : StatusInv s) (hg : guard l s)
    (hok : BufferFree l s) : StatusInv (update l s) := by
  cases l with
  | add seqNum remoteId now => exact h.add seqNum remoteId now
  | remove seqNum remoteId => exact h.remove seqNum remoteId
  | process =>
    exact h.relabel (owed_idle (h.fresh s.begun le_rfl)) (Or.inl rfl) (Nat.lt_succ_self _)
      (Nat.le_succ _) rfl rfl rfl rfl rfl rfl rfl
  | pass p now => exact h.pass hg hok
  | fire p => exact h.fire hg
  | finish p => exact h.finish hg

theorem status_of_reachable (h : (monitorLts cfg).ReachableWhen BufferFree s) :
    StatusInv s := by
  refine h.induct ?_ ?_
  · rintro s rfl
    exact StatusInv.initial
  · intro l s _ hg hok hi
    exact hi.step hg hok

/-- In every run in which no pass writes to cells that another one has still to
report, every entry that left the pending map is reported exactly once. -/
theorem one_status_per_entry (h : (monitorLts cfg).ReachableWhen BufferFree s) :
    OneStatus s := by
  have hi := status_of_reachable h
  exact ⟨hi.conserved, hi.reported, hi.emission_eq, s.pending.capped⟩

/-! ## Runs -/

instance (l : MonitorLabel) (s : MonitorSys cfg) : Decidable ((monitorLts cfg).guard l s) :=
  match l with
  | .add .. | .remove .. | .process => isTrue trivial
  | .pass p _ => inferInstanceAs (Decidable (s.call p = .passing))
  | .fire p => inferInstanceAs (Decidable (s.emission p ≠ none))
  | .finish p => by
    show Decidable (match s.call p with
      | .firing next count _ => next = count
      | _ => False)
    cases s.call p <;> infer_instance

instance (l : MonitorLabel) (s : MonitorSys cfg) : Decidable (BufferFree l s) :=
  match l with
  | .pass p now => inferInstanceAs (Decidable (∀ q < s.begun, q ≠ p →
      ∀ next ∈ MonitorPc.unread (s.call q), s.pending.expiredCount now ≤ next))
  | .add .. | .remove .. | .process | .fire _ | .finish _ => isTrue trivial

/-- An entry times out in one pass and another one is acknowledged while the
first status is still to be reported. -/
def reportRun : List MonitorLabel :=
  [MonitorLabel.add 10 1 0, .add 11 1 1500, .process, .pass 0 2500, .remove 11 1, .fire 1, .fire 0,
    .finish 0]

theorem one_status_per_entry_run : ∃ s : MonitorSys .default, OneStatus s ∧
    s.emitted = [(1, ⟨1, 11, .success⟩), (0, ⟨1, 10, .timeout⟩)] ∧ s.call 0 = .returned := by
  obtain ⟨s, hs, hp⟩ := (monitorLts .default).execWhen_reachable BufferFree rfl reportRun
    (fun s => s.emitted = [(1, ⟨1, 11, .success⟩), (0, ⟨1, 10, .timeout⟩)] ∧
      s.call 0 = .returned) (by decide)
  exact ⟨s, one_status_per_entry hs, by simpa using hp⟩

/-- Two overlapping passes: the second one collects its entry before the first
one has reported its own. -/
def overlapRun : List MonitorLabel :=
  [MonitorLabel.add 10 1 0, .process, .pass 0 2500, .add 11 1 2600, .process, .pass 1 5000, .fire 1,
    .finish 1, .fire 0, .finish 0]

/-- One entry is reported twice and the other one never, although both calls
have returned. -/
theorem status_lost : ∃ s : MonitorSys .default, (monitorLts .default).Reachable s ∧
    s.emitted = [(1, ⟨1, 11, .timeout⟩), (0, ⟨1, 11, .timeout⟩)] ∧
    s.left.map Departure.data = [⟨1, 10, 0⟩, ⟨1, 11, 2600⟩] ∧
    s.call 0 = .returned ∧ s.call 1 = .returned ∧ ¬ OneStatus s := by
  obtain ⟨s, hs, hp⟩ := (monitorLts .default).execWhen_reachable Lts.always rfl overlapRun
    (fun s => (s.emitted = [(1, ⟨1, 11, .timeout⟩), (0, ⟨1, 11, .timeout⟩)] ∧
      s.left = [⟨0, ⟨1, 10, 0⟩, .process⟩, ⟨1, ⟨1, 11, 2600⟩, .process⟩] ∧
      s.call 0 = .returned ∧ s.call 1 = .returned)) (by decide)
  obtain ⟨hemit, hleft, h0, h1⟩ := of_decide_eq_true hp
  refine ⟨s, hs, hemit, by rw [hleft]; rfl, h0, h1, fun hone => ?_⟩
  -- call 0 removed number 10 and owes nothing any more
  have hlog := hone.reported.log 0
  rw [hleft, hemit] at hlog
  simp [ofClass, owed, h0, Departure.report] at hlog

end MonitorSys

end AsyncSqlite
