import Mathlib.Data.List.Perm.Basic
import AsyncSqlite.Databus.ParticipantTable

/-!
# AsyncSqlite.Databus.Subscribed — the clones of the bus in the error signals

A registration is a participant with the clone that the bus has in its error signal.
`Subscribed`: the clones of the bus in the error signals are those of a list of
registrations, each once. This is what counts the errors that reach the bus: a snapshot of
the signal has one clone for each registration, and an emission calls each clone of its
snapshot once (`Exact`).
-/

namespace AsyncSqlite

universe u

namespace ParticipantTable

variable {signals : ℕ → SignalState} {targets : List ErrorTarget} {regs regs' : List (ℕ × ℕ)}
  {p n : ℕ}

/-! ## The clones of the bus -/

structure Subscribed (signals : ℕ → SignalState) (targets : List ErrorTarget)
    (regs : List (ℕ × ℕ)) : Prop where
  clones : (regs.map Prod.snd).Nodup
  nodup : ∀ p, (signals p).delegates.Nodup
  known : ∀ p, ∀ n ∈ (signals p).delegates, n < targets.length
  mem : ∀ p n, (p, n) ∈ regs ↔ n ∈ (signals p).delegates ∧ callsBus targets n = true
  dead : ∀ p, (signals p).alive = false → (signals p).delegates = []

theorem callsBus_append (t : ErrorTarget) (hn : n < targets.length) :
    callsBus (targets ++ [t]) n = callsBus targets n := by
  unfold callsBus
  rw [List.getElem?_append_left hn]

theorem callsBus_length (t : ErrorTarget) :
    callsBus (targets ++ [t]) targets.length = decide (t = .bus) := by
  unfold callsBus
  rw [List.getElem?_concat_length]
  simp only [Option.some.injEq]

theorem countP_callsBus_append (t : ErrorTarget) {l : List ℕ}
    (hl : ∀ n ∈ l, n < targets.length) :
    l.countP (callsBus (targets ++ [t])) = l.countP (callsBus targets) := by
  apply List.countP_congr
  intro n hn
  rw [callsBus_append t (hl n hn)]

theorem Subscribed.perm (h : Subscribed signals targets regs) (hperm : regs.Perm regs') :
    Subscribed signals targets regs' where
  clones := (hperm.map Prod.snd).nodup_iff.mp h.clones
  nodup := h.nodup
  known := h.known
  mem := by
    intro p n
    rw [← hperm.mem_iff]
    exact h.mem p n
  dead := h.dead

/-- A registration is with a participant that exists. -/
theorem Subscribed.alive (h : Subscribed signals targets regs) (hreg : (p, n) ∈ regs) :
    (signals p).alive = true := by
  rw [h.mem] at hreg
  cases halive : (signals p).alive with
  | true => rfl
  | false =>
    rw [h.dead p halive] at hreg
    cases hreg.1

/-- An error of a participant reaches the bus once for each of its registrations. -/
theorem Subscribed.countP (h : Subscribed signals targets regs) (p : ℕ) :
    (signals p).delegates.countP (callsBus targets) = regs.countP (·.1 = p) := by
  have hperm : ((signals p).delegates.filter (callsBus targets)).Perm
      ((regs.filter (·.1 = p)).map Prod.snd) := by
    rw [List.perm_ext_iff_of_nodup ((h.nodup p).filter _)
      (h.clones.sublist (List.filter_sublist.map Prod.snd))]
    intro n
    rw [List.mem_filter, ← h.mem, List.mem_map]
    constructor
    · intro hreg
      refine ⟨(p, n), ?_, rfl⟩
      rw [List.mem_filter]
      exact ⟨hreg, decide_eq_true rfl⟩
    · rintro ⟨⟨q, m⟩, hreg, rfl⟩
      rw [List.mem_filter] at hreg
      have hq : q = p := of_decide_eq_true hreg.2
      subst hq
      exact hreg.1
  rw [List.countP_eq_length_filter, List.countP_eq_length_filter, hperm.length_eq, List.length_map]

/-- `Connect` -/
theorem Subscribed.subscribe (h : Subscribed signals targets regs) (target : ErrorTarget)
    (halive : (signals p).alive = true) :
    Subscribed (Function.update signals p
        { signals p with delegates := (signals p).delegates ++ [targets.length] })
      (targets ++ [target]) (regs ++ if target = .bus then [(p, targets.length)] else []) where
  clones := by
    split
    · rw [List.map_append, List.nodup_append]
      refine ⟨h.clones, List.nodup_singleton _, ?_⟩
      intro n hn m hm
      rw [List.mem_map] at hn
      rcases hn with ⟨r, hr, rfl⟩
      rw [List.map_singleton, List.mem_singleton] at hm
      -- the number of the new clone is behind all that are registered
      have hlt := h.known r.1 r.2 ((h.mem r.1 r.2).mp hr).1
      omega
    · rw [List.append_nil]
      exact h.clones
  nodup := by
    rw [Function.forall_update_iff signals fun _ st => st.delegates.Nodup]
    refine ⟨?_, fun q _ => h.nodup q⟩
    rw [List.nodup_append]
    refine ⟨h.nodup p, List.nodup_singleton _, ?_⟩
    intro n hn m hm
    rw [List.mem_singleton] at hm
    have hlt := h.known p n hn
    omega
  known := by
    rw [List.length_append, List.length_singleton, Function.forall_update_iff signals
      fun _ st => ∀ n ∈ st.delegates, n < targets.length + 1]
    refine ⟨?_, fun q _ n hn => Nat.lt_succ_of_lt (h.known q n hn)⟩
    intro n hn
    rw [List.mem_append, List.mem_singleton] at hn
    rcases hn with hn | rfl
    · exact Nat.lt_succ_of_lt (h.known p n hn)
    · exact Nat.lt_succ_self _
  mem := by
    have hold : ∀ q n, (q, n) ∈ regs ↔
        n ∈ (signals q).delegates ∧ callsBus (targets ++ [target]) n = true := by
      intro q n
      rw [h.mem]
      apply and_congr_right
      intro hn
      rw [callsBus_append target (h.known q n hn)]
    have hnew : ∀ q n, (q, n) ∈ (if target = .bus then [(p, targets.length)] else []) ↔
        q = p ∧ n = targets.length ∧ callsBus (targets ++ [target]) n = true := by
      intro q n
      split
      · rename_i hbus
        rw [List.mem_singleton, Prod.mk.injEq]
        apply and_congr_right
        rintro -
        refine ⟨fun hn => ⟨hn, ?_⟩, And.left⟩
        rw [hn, callsBus_length, hbus, decide_eq_true rfl]
      · rename_i hbus
        refine ⟨fun hn => absurd hn List.not_mem_nil, ?_⟩
        rintro ⟨-, rfl, hn⟩
        rw [callsBus_length, decide_eq_true_iff] at hn
        exact absurd hn hbus
    rw [Function.forall_update_iff signals fun q st => ∀ n, (q, n) ∈ regs ++ _ ↔
      n ∈ st.delegates ∧ callsBus (targets ++ [target]) n = true]
    constructor
    · intro n
      rw [List.mem_append, List.mem_append, List.mem_singleton, hold, hnew, or_and_right,
        eq_self_iff_true, true_and]
    · intro q hq n
      rw [List.mem_append, hold, hnew]
      exact or_iff_left fun hn => hq hn.1
  dead := by
    rw [Function.forall_update_iff signals fun _ st => st.alive = false → st.delegates = []]
    refine ⟨fun hdead => ?_, fun q _ => h.dead q⟩
    exact absurd (halive.symm.trans hdead) Bool.noConfusion

/-- One signal loses delegates, and the list the registrations with them. -/
theorem Subscribed.lose (h : Subscribed signals targets regs) {st : SignalState}
    (hst : st.delegates.Sublist (signals p).delegates)
    (hdead : st.alive = false → st.delegates = []) (hregs : regs'.Sublist regs)
    (hmem : ∀ q n, (q, n) ∈ regs' ↔ (q, n) ∈ regs ∧ (q = p → n ∈ st.delegates)) :
    Subscribed (Function.update signals p st) targets regs' where
  clones := h.clones.sublist (hregs.map Prod.snd)
  nodup := by
    rw [Function.forall_update_iff signals fun _ st => st.delegates.Nodup]
    exact ⟨(h.nodup p).sublist hst, fun q _ => h.nodup q⟩
  known := by
    rw [Function.forall_update_iff signals fun _ st => ∀ n ∈ st.delegates, n < targets.length]
    exact ⟨fun n hn => h.known p n (hst.subset hn), fun q _ => h.known q⟩
  mem := by
    rw [Function.forall_update_iff signals fun q st =>
      ∀ n, (q, n) ∈ regs' ↔ n ∈ st.delegates ∧ callsBus targets n = true]
    constructor
    · intro n
      rw [hmem, h.mem]
      constructor
      · rintro ⟨⟨-, hbus⟩, hn⟩
        exact ⟨hn rfl, hbus⟩
      · rintro ⟨hn, hbus⟩
        exact ⟨⟨hst.subset hn, hbus⟩, fun _ => hn⟩
    · intro q hq n
      rw [hmem, h.mem]
      exact and_iff_left fun heq => absurd heq hq
  dead := by
    rw [Function.forall_update_iff signals fun _ st => st.alive = false → st.delegates = []]
    exact ⟨hdead, fun q _ => h.dead q⟩

/-- What `DisconnectImpl` does to the state block. -/
def without (n : ℕ) (st : SignalState) : SignalState :=
  { st with delegates := st.delegates.filter (· ≠ n) }

theorem mem_without {m : ℕ} {st : SignalState} :
    m ∈ (without n st).delegates ↔ m ∈ st.delegates ∧ m ≠ n := by
  unfold without
  rw [List.mem_filter, decide_eq_true_iff]

theorem Subscribed.dead_without (h : Subscribed signals targets regs) (p n : ℕ) :
    (without n (signals p)).alive = false → (without n (signals p)).delegates = [] := by
  intro hdead
  unfold without
  rw [h.dead p hdead, List.filter_nil]

/-- A registration is disconnected. -/
theorem Subscribed.disconnect (h : Subscribed signals targets ((p, n) :: regs)) :
    Subscribed (Function.update signals p (without n (signals p))) targets regs := by
  have hclones := h.clones
  rw [List.map_cons, List.nodup_cons] at hclones
  refine h.lose List.filter_sublist (h.dead_without p n) (List.sublist_cons_self _ _) ?_
  intro q m
  rw [mem_without, List.mem_cons, Prod.mk.injEq]
  constructor
  · intro hreg
    refine ⟨Or.inr hreg, ?_⟩
    rintro rfl
    refine ⟨((h.mem q m).mp (List.mem_cons_of_mem _ hreg)).1, ?_⟩
    -- no other registration has this clone
    rintro rfl
    exact hclones.1 (List.mem_map_of_mem hreg)
  · rintro ⟨⟨rfl, rfl⟩ | hreg, hne⟩
    · exact absurd rfl (hne rfl).2
    · exact hreg

/-- Somebody else disconnects. -/
theorem Subscribed.disconnectOther (h : Subscribed signals targets regs)
    (hn : callsBus targets n = false) :
    Subscribed (Function.update signals p (without n (signals p))) targets regs := by
  refine h.lose List.filter_sublist (h.dead_without p n) (List.Sublist.refl _) ?_
  intro q m
  constructor
  · intro hreg
    refine ⟨hreg, ?_⟩
    rintro rfl
    rw [h.mem] at hreg
    rw [mem_without]
    refine ⟨hreg.1, ?_⟩
    rintro rfl
    exact absurd (hn.symm.trans hreg.2) Bool.noConfusion
  · exact And.left

/-- A participant is destroyed: the list has lost its registrations, and no others. -/
theorem Subscribed.destroy (h : Subscribed signals targets regs) (hregs : regs'.Sublist regs)
    (hkeep : ∀ r ∈ regs, r.1 ≠ p → r ∈ regs') (hnone : ∀ n, (p, n) ∉ regs') :
    Subscribed (Function.update signals p ⟨false, []⟩) targets regs' := by
  refine h.lose (List.nil_sublist _) (fun _ => rfl) hregs ?_
  intro q n
  constructor
  · intro hreg
    refine ⟨hregs.subset hreg, ?_⟩
    rintro rfl
    exact absurd hreg (hnone n)
  · rintro ⟨hreg, hlost⟩
    exact hkeep _ hreg fun heq => List.not_mem_nil (hlost heq)

/-! ## The calls of an emission -/

variable {Topic : Type u} {sbo : ℕ}

/-- The emission goes through the clones of its snapshot, in order. -/
structure Exact (sbo : ℕ) (targets : List ErrorTarget) (e : Emission Topic) (g : LiveFire) :
    Prop where
  fire : Signal.FireRel sbo e.fire g
  known : ∀ n ∈ g.snapshot, n < targets.length
  counted : g.snapshot.countP (callsBus targets) = e.registered + e.adding
  reports : e.reports = g.invoked.countP (callsBus targets)

variable {e : Emission Topic} {g : LiveFire}

theorem Exact.invoked_sublist (h : Exact sbo targets e g) : g.invoked.Sublist g.snapshot := by
  rw [h.fire.front]
  exact List.take_sublist _ _

/-- Somebody connects to an error signal. -/
theorem Exact.subscribe (h : Exact sbo targets e g) (target : ErrorTarget) :
    Exact sbo (targets ++ [target]) e g where
  fire := h.fire
  known := by
    intro n hn
    rw [List.length_append, List.length_singleton]
    exact Nat.lt_succ_of_lt (h.known n hn)
  counted := by
    rw [countP_callsBus_append target h.known]
    exact h.counted
  reports := by
    rw [countP_callsBus_append target fun n hn => h.known n (h.invoked_sublist.subset hn)]
    exact h.reports

theorem Exact.next (h : Exact sbo targets e g) (hlt : ¬ e.fire.finished sbo) :
    Exact sbo targets
      { e with
        fire := e.fire.next sbo
        reports := e.reports +
          ((e.fire.snapshot.slot sbo e.fire.round).any (callsBus targets)).toNat }
      { g with invoked := g.snapshot.take (g.invoked.length + 1) } where
  fire := by
    rw [h.fire.finished_iff, Nat.not_le] at hlt
    exact h.fire.next hlt
  known := h.known
  counted := h.counted
  reports := by
    rw [h.fire.finished_iff, Nat.not_le] at hlt
    have hslot : e.fire.snapshot.slot sbo e.fire.round = some g.snapshot[g.invoked.length] := by
      rw [h.fire.snapshot, h.fire.round, Snapshot.slot_take sbo g.snapshot hlt,
        List.getElem?_eq_getElem hlt]
    show e.reports + _ = _
    rw [hslot, h.reports, List.take_succ_eq_append_getElem hlt, ← h.fire.front,
      List.countP_append, List.countP_singleton, Option.any_some]
    cases callsBus targets g.snapshot[g.invoked.length] with
    | true => rfl
    | false => rfl

/-- An emission calls the bus at most once for each registration, and exactly once when it
is through. -/
theorem Exact.reports_le (h : Exact sbo targets e g) :
    e.reports ≤ e.registered + e.adding := by
  rw [h.reports, ← h.counted]
  exact h.invoked_sublist.countP_le

theorem Exact.reports_finished (h : Exact sbo targets e g) (hfin : e.fire.finished sbo) :
    e.reports = e.registered + e.adding := by
  rw [h.fire.finished_iff] at hfin
  have hfront := h.fire.front
  rw [List.take_of_length_le hfin] at hfront
  rw [h.reports, ← h.counted, hfront]

end ParticipantTable

end AsyncSqlite
