import AsyncSqlite.Data.Log
import AsyncSqlite.Databus.Model
import AsyncSqlite.Databus.Subscribed

/-!
# AsyncSqlite.Databus.ErrorConnections — each slot has the connection of its participant

`TableInv` has two lists of registrations, those in the slots and those of the additions
that have not come to the lock. The arrays hold the first, whatever was removed where; the
clones of the bus are those of both. Every step keeps it (`TableInv.step`), with the
participants of the slots in the order of the additions that survive (`survivors`).
-/

namespace AsyncSqlite

universe u

namespace ParticipantTable

variable {Topic : Type u} {targets : List ErrorTarget} {slots pending : List (ℕ × ℕ)}
  {maxParticipants sbo p n i : ℕ}

/-! ## The invariant -/

/-- The connection of a registration, as `Connect` has returned it. -/
def errorConnection (r : ℕ × ℕ) : Connection := ⟨some r.1, some r.2, true, true⟩

def addition (r : ℕ × ℕ) : Addition := ⟨r.1, errorConnection r⟩

theorem addition_injective : Function.Injective addition := by
  rintro ⟨p, n⟩ ⟨q, m⟩ h
  simp only [addition, errorConnection, Addition.mk.injEq, Connection.mk.injEq,
    Option.some.injEq] at h
  rw [h.1, h.2.2.1]

/-- The connection is one of somebody else. -/
def Other (targets : List ErrorTarget) (c : Connection) : Prop :=
  ∃ p n, c = errorConnection (p, n) ∧ n < targets.length ∧ callsBus targets n = false

theorem Other.subscribe {c : Connection} (h : Other targets c) (target : ErrorTarget) :
    Other (targets ++ [target]) c := by
  rcases h with ⟨p, n, hc, hlt, hbus⟩
  refine ⟨p, n, hc, ?_, ?_⟩
  · rw [List.length_append]
    exact Nat.lt_add_right _ hlt
  · rw [callsBus_append target hlt]
    exact hbus

/-- The registrations in the slots and those in progress, without their places. -/
structure Accounted (sbo : ℕ) (s : ParticipantTable Topic) (slots pending : List (ℕ × ℕ)) :
    Prop where
  adding : s.adding = pending.map addition
  subscribed : Subscribed s.signals s.targets (slots ++ pending)
  held : ∀ p, s.held p = true → (s.signals p).alive = true
  others : ∀ c ∈ s.others, Other s.targets c
  emissions : Log.Forall (fun _ e => ∃ g, Exact sbo s.targets e g) s.emissions

structure TableInv (maxParticipants sbo : ℕ) (s : ParticipantTable Topic)
    (slots pending : List (ℕ × ℕ)) : Prop where
  participants : Filled none s.participants (slots.map (some ·.1))
  connections : Filled .empty s.errorConnections (slots.map errorConnection)
  count : s.count = slots.length
  bound : slots.length ≤ maxParticipants
  accounted : Accounted sbo s slots pending

variable {s : ParticipantTable Topic}

theorem TableInv.slot (h : TableInv maxParticipants sbo s slots pending)
    (hi : i < slots.length) :
    s.participants i = some slots[i].1 ∧ s.errorConnections i = errorConnection slots[i] := by
  constructor
  · rw [h.participants.of_lt (by rw [List.length_map]; exact hi), List.getElem_map]
  · rw [h.connections.of_lt (by rw [List.length_map]; exact hi), List.getElem_map]

/-- The signal of one participant changes, and is alive if somebody outside has a pointer
to it. -/
theorem Accounted.held_update (h : Accounted sbo s slots pending) {st : SignalState}
    (hst : s.held p = true → st.alive = true) :
    ∀ q, s.held q = true → (Function.update s.signals p st q).alive = true := by
  rw [Function.forall_update_iff s.signals fun q st => s.held q = true → st.alive = true]
  exact ⟨hst, fun q _ => h.held q⟩

theorem Accounted.emissions_subscribe (h : Accounted sbo s slots pending) (target : ErrorTarget) :
    Log.Forall (fun _ e => ∃ g, Exact sbo (s.targets ++ [target]) e g) s.emissions := by
  refine h.emissions.mono ?_
  rintro - e - ⟨g, hg⟩
  exact ⟨g, hg.subscribe target⟩

theorem TableInv.initial :
    TableInv maxParticipants sbo (initial : ParticipantTable Topic) [] [] where
  participants := Filled.nil
  connections := Filled.nil
  count := rfl
  bound := Nat.zero_le _
  accounted := by
    refine ⟨rfl, ⟨List.nodup_nil, ?_, ?_, ?_, ?_⟩, ?_, ?_, ?_⟩
    · exact fun _ => List.nodup_nil
    · intro p n hn
      cases hn
    · intro p n
      rw [List.append_nil]
      constructor
      · intro hr
        cases hr
      · intro hn
        cases hn.1
    · exact fun _ _ => rfl
    · exact fun _ _ => rfl
    · intro c hc
      cases hc
    · exact Log.forall_nil

/-! ## The arrays -/

/-- A move into a slot without a connection disconnects nothing. -/
theorem assignSlot_eq (h : (s.errorConnections i).connected = false) (c : Connection) :
    s.assignSlot i c = { s with errorConnections := Function.update s.errorConnections i c } := by
  have hslot : s.disconnectSlot i = s := by
    unfold disconnectSlot
    rw [h]
    exact if_neg Bool.false_ne_true
  unfold assignSlot
  rw [hslot, hslot]

theorem moveDown_eq (h : s.errorConnections i = .empty) :
    s.moveDown i =
      { s with
        participants := moveCell none i s.participants
        errorConnections := moveCell .empty i s.errorConnections } := by
  unfold moveDown
  rw [assignSlot_eq (by rw [h]; rfl)]
  rfl

/-- The inner loop starts from the slot that was disconnected, and each round leaves the next
one so. -/
theorem moveDownFrom_eq (k : ℕ) (h : s.errorConnections i = .empty) :
    moveDownFrom k i s =
      { s with
        participants := shiftCells none k i s.participants
        errorConnections := shiftCells .empty k i s.errorConnections } := by
  induction k generalizing i s with
  | zero => rfl
  | succ k ih =>
    rw [moveDownFrom, moveDown_eq h, ih moveCell_succ]
    rfl

/-- `DisconnectImpl` on a dead signal does nothing, and there is nothing to do. -/
theorem disconnectImpl_eq (hdead : (s.signals p).alive = false → (s.signals p).delegates = []) :
    s.disconnectImpl p n =
      { s with signals := Function.update s.signals p (without n (s.signals p)) } := by
  unfold disconnectImpl
  split
  · rfl
  · rename_i halive
    have hsame : without n (s.signals p) = s.signals p := by
      unfold without
      rw [hdead (Bool.eq_false_of_not_eq_true halive), List.filter_nil,
        ← hdead (Bool.eq_false_of_not_eq_true halive)]
    rw [hsame, Function.update_eq_self]

theorem disconnect_errorConnection (r : ℕ × ℕ) :
    s.disconnect (errorConnection r) = s.disconnectImpl r.1 r.2 := rfl

theorem disconnectSlot_eq {r : ℕ × ℕ} (h : s.errorConnections i = errorConnection r)
    (hdead : (s.signals r.1).alive = false → (s.signals r.1).delegates = []) :
    s.disconnectSlot i =
      { s with
        signals := Function.update s.signals r.1 (without r.2 (s.signals r.1))
        errorConnections := Function.update s.errorConnections i .empty } := by
  unfold disconnectSlot
  rw [h, disconnect_errorConnection, disconnectImpl_eq hdead]
  exact if_pos rfl

/-! ## Additions -/

theorem TableInv.addParticipant (h : TableInv maxParticipants sbo s slots pending)
    (hp : s.held p = true) :
    TableInv maxParticipants sbo (s.addParticipant p) slots
      (pending ++ [(p, s.targets.length)]) where
  participants := h.participants
  connections := h.connections
  count := h.count
  bound := h.bound
  accounted := by
    have hacc := h.accounted
    refine ⟨?_, ?_, ?_, ?_, ?_⟩
    · rw [List.map_append, ← hacc.adding]
      rfl
    · rw [← List.append_assoc]
      exact hacc.subscribed.subscribe .bus (hacc.held p hp)
    · exact hacc.held_update (hacc.held p)
    · intro c hc
      exact (hacc.others c hc).subscribe .bus
    · exact hacc.emissions_subscribe .bus

/-- The new slot has no connection yet, so that the assignment disconnects nothing. -/
theorem TableInv.addLocked (h : TableInv maxParticipants sbo s slots pending) {r : ℕ × ℕ}
    (hr : r ∈ pending) (hlt : s.count < maxParticipants) :
    TableInv maxParticipants sbo (s.addLocked maxParticipants (addition r)) (slots ++ [r])
      (pending.erase r) := by
  have hempty : s.errorConnections s.count = .empty := by
    apply h.connections.of_ge
    rw [List.length_map, h.count]
  unfold ParticipantTable.addLocked
  rw [if_pos hlt, assignSlot_eq (by rw [hempty]; rfl)]
  have hacc := h.accounted
  have hparticipants := h.participants.push (some r.1)
  have hconnections := h.connections.push (errorConnection r)
  rw [List.length_map, ← h.count] at hparticipants hconnections
  constructor
  · rw [List.map_append]
    exact hparticipants
  · rw [List.map_append]
    exact hconnections
  · rw [List.length_append, ← h.count]
    rfl
  · rw [List.length_append, ← h.count]
    exact hlt
  · refine ⟨?_, ?_, hacc.held, hacc.others, hacc.emissions⟩
    · rw [List.map_erase addition_injective, ← hacc.adding]
    · refine hacc.subscribed.perm ?_
      rw [List.append_assoc]
      exact (List.perm_cons_erase hr).append_left slots

/-- Somebody else connects to the error signal of a participant. -/
theorem TableInv.subscribeError (h : TableInv maxParticipants sbo s slots pending)
    (hp : s.held p = true) (callback : ℕ) :
    TableInv maxParticipants sbo
      { s.subscribeError p (.other callback) with others := s.others ++ [s.connection p] }
      slots pending where
  participants := h.participants
  connections := h.connections
  count := h.count
  bound := h.bound
  accounted := by
    have hacc := h.accounted
    refine ⟨hacc.adding, ?_, ?_, ?_, ?_⟩
    · rw [← List.append_nil (slots ++ pending)]
      exact hacc.subscribed.subscribe (.other callback) (hacc.held p hp)
    · exact hacc.held_update (hacc.held p)
    · intro c hc
      rw [List.mem_append, List.mem_singleton] at hc
      rcases hc with hc | rfl
      · exact (hacc.others c hc).subscribe (.other callback)
      · refine ⟨p, s.targets.length, rfl, ?_, ?_⟩
        · show s.targets.length < (s.targets ++ [ErrorTarget.other callback]).length
          rw [List.length_append]
          exact Nat.lt_succ_self _
        · exact callsBus_length (.other callback)
    · exact hacc.emissions_subscribe (.other callback)

/-! ## Removals -/

theorem TableInv.dead (h : TableInv maxParticipants sbo s slots pending) (p : ℕ) :
    (s.signals p).alive = false → (s.signals p).delegates = [] :=
  h.accounted.subscribed.dead p

/-- Somebody else's connection is destroyed. -/
theorem TableInv.disconnect (h : TableInv maxParticipants sbo s slots pending) {c : Connection}
    (hc : c ∈ s.others) :
    TableInv maxParticipants sbo { s.disconnect c with others := s.others.erase c } slots
      pending := by
  have hacc := h.accounted
  rcases hacc.others c hc with ⟨p, n, rfl, -, hbus⟩
  rw [disconnect_errorConnection, disconnectImpl_eq (h.dead p)]
  refine ⟨h.participants, h.connections, h.count, h.bound, hacc.adding, ?_, ?_, ?_,
    hacc.emissions⟩
  · exact hacc.subscribed.disconnectOther hbus
  · exact hacc.held_update (hacc.held p)
  · intro c' hc'
    exact hacc.others c' (List.mem_of_mem_erase hc')

/-- `findSlot` finds the first registration of the participant. -/
theorem TableInv.findSlot (h : TableInv maxParticipants sbo s slots pending)
    (participant : Option ℕ) :
    s.findSlot participant = (slots.map (some ·.1)).idxOf? participant := by
  have hfind := h.participants.find_range participant
  rw [List.length_map, ← h.count] at hfind
  exact hfind

/-- The connection of the slot is disconnected, and those behind it move down with their
participants. -/
theorem TableInv.removeSlot (h : TableInv maxParticipants sbo s slots pending)
    {participant : Option ℕ} (hfind : s.findSlot participant = some i) :
    TableInv maxParticipants sbo (s.removeParticipant participant) (slots.eraseIdx i)
      pending := by
  have hidx := h.findSlot participant
  rw [hfind] at hidx
  rcases List.idxOf?_eq_some_iff.mp hidx.symm with ⟨hi, -, -⟩
  rw [List.length_map] at hi
  have hacc := h.accounted
  unfold ParticipantTable.removeParticipant
  rw [hfind]
  simp only
  -- the slot is empty when the inner loop starts
  rw [disconnectSlot_eq (h.slot hi).2 (h.dead _), moveDownFrom_eq _ (Function.update_self ..)]
  have hlength : (slots.eraseIdx i).length = s.count - 1 := by
    rw [List.length_eraseIdx_of_lt hi, h.count]
  have hparticipants := h.participants.shift_clear (i := i) (by rwa [List.length_map])
  have hconnections := h.connections.shift_hole (i := i) (by rwa [List.length_map])
  rw [List.length_map, ← h.count, List.eraseIdx_map] at hparticipants hconnections
  constructor
  · exact hparticipants
  · exact hconnections
  · exact hlength.symm
  · rw [hlength, h.count]
    exact Nat.le_trans (Nat.sub_le _ _) h.bound
  · refine ⟨hacc.adding, ?_, hacc.held_update (hacc.held _), hacc.others, hacc.emissions⟩
    refine Subscribed.disconnect (hacc.subscribed.perm ?_)
    exact (List.getElem_cons_eraseIdx_perm hi).symm.append_right pending

/-! ## Resetting -/

theorem referenced_eq_false (h : s.referenced p = false) :
    s.held p = false ∧ (∀ i, i < s.count → s.participants i ≠ some p) ∧
      ∀ a ∈ s.adding, a.participant ≠ p := by
  unfold referenced at h
  rw [Bool.or_eq_false_iff, Bool.or_eq_false_iff, List.any_eq_false, List.any_eq_false] at h
  refine ⟨h.1.1, ?_, ?_⟩
  · intro i hi hp
    exact h.1.2 i (List.mem_range.mpr hi) (decide_eq_true hp)
  · intro a ha hp
    exact h.2 a ha (decide_eq_true hp)

/-- The loop of `InternalReset` has come to the slot `i`. -/
structure Resetting (sbo : ℕ) (s : ParticipantTable Topic) (i : ℕ)
    (slots pending : List (ℕ × ℕ)) : Prop where
  before : ∀ m, m < i → s.participants m = none ∧ s.errorConnections m = .empty
  participants : Filled none (fun m => s.participants (i + m)) (slots.map (some ·.1))
  connections : Filled .empty (fun m => s.errorConnections (i + m)) (slots.map errorConnection)
  count : s.count = i + slots.length
  accounted : Accounted sbo s slots pending

/-- A participant to which nobody has a pointer has no registration. -/
theorem not_referenced (hslots : Filled none (fun m => s.participants (i + m))
      (slots.map (some ·.1)))
    (hcount : s.count = i + slots.length) (hadding : s.adding = pending.map addition)
    (href : s.referenced p = false) : ∀ n, (p, n) ∉ slots ++ pending := by
  rcases referenced_eq_false href with ⟨-, hnoslot, hnone⟩
  intro n hn
  rw [List.mem_append] at hn
  rcases hn with hn | hn
  · have hmem : some p ∈ slots.map fun r => some r.1 :=
      List.mem_map_of_mem (f := fun r => some r.1) hn
    rcases hslots.exists_of_mem hmem with ⟨m, hm, hpm⟩
    rw [List.length_map] at hm
    exact hnoslot (i + m) (by omega) hpm
  · refine hnone (addition (p, n)) ?_ rfl
    rw [hadding]
    exact List.mem_map_of_mem hn

theorem Resetting.count_succ {r : ℕ × ℕ} (h : Resetting sbo s i (r :: slots) pending) :
    s.count = i + 1 + slots.length := by
  rw [h.count, List.length_cons]
  omega

/-- The registration in the slot goes: through its connection, or with the participant if
the slot had the last pointer to it. -/
theorem Resetting.resetSlot_eq {r : ℕ × ℕ} (h : Resetting sbo s i (r :: slots) pending) :
    ∃ st,
      s.resetSlot i =
        { s with
          latches := Function.update s.latches r.1 { s.latches r.1 with reportedErrors := [] }
          participants := Function.update s.participants i none
          signals := Function.update s.signals r.1 st
          errorConnections := Function.update s.errorConnections i .empty } ∧
      Subscribed (Function.update s.signals r.1 st) s.targets (slots ++ pending) ∧
      (s.held r.1 = true → st.alive = true) := by
  have hp : s.participants i = some r.1 := h.participants 0
  have hc : s.errorConnections i = errorConnection r := h.connections 0
  have hsub := h.accounted.subscribed
  unfold ParticipantTable.resetSlot
  rw [hp]
  simp only
  unfold release
  split
  · refine ⟨without r.2 (s.signals r.1), ?_, hsub.disconnect, h.accounted.held r.1⟩
    exact disconnectSlot_eq hc (hsub.dead r.1)
  · rename_i href
    have hfalse := Bool.eq_false_of_not_eq_true href
    have hnone : ∀ n, (r.1, n) ∉ slots ++ pending := by
      refine not_referenced (i := i + 1) ?_ ?_ ?_ hfalse
      · exact h.participants.pop fun m hm => Function.update_of_ne (Nat.ne_of_gt hm) ..
      · exact h.count_succ
      · exact h.accounted.adding
    refine ⟨⟨false, []⟩, ?_, ?_, ?_⟩
    · -- the connection is to a signal that is dead now
      refine (disconnectSlot_eq (r := r) ?_ fun _ => ?_).trans ?_
      · exact hc
      · simp only [Function.update_self]
      · simp only [Function.update_self, Function.update_idem]
        rfl
    · refine hsub.destroy (List.sublist_cons_self _ _) ?_ hnone
      intro r' hr' hne
      rw [List.cons_append, List.mem_cons] at hr'
      rcases hr' with rfl | hr'
      · exact absurd rfl hne
      · exact hr'
    · intro hheld
      exact absurd (hheld.symm.trans (referenced_eq_false hfalse).1) Bool.noConfusion

theorem Resetting.slot {r : ℕ × ℕ} (h : Resetting sbo s i (r :: slots) pending) :
    Resetting sbo (s.resetSlot i) (i + 1) slots pending := by
  rcases h.resetSlot_eq with ⟨st, heq, hsub, hst⟩
  rw [heq]
  have hacc := h.accounted
  constructor
  · intro m hm
    show Function.update s.participants i none m = none ∧
      Function.update s.errorConnections i .empty m = .empty
    by_cases hmi : m = i
    · subst hmi
      exact ⟨Function.update_self .., Function.update_self ..⟩
    · rw [Function.update_of_ne hmi, Function.update_of_ne hmi]
      exact h.before m (by omega)
  · exact h.participants.pop fun m hm => Function.update_of_ne (Nat.ne_of_gt hm) ..
  · exact h.connections.pop fun m hm => Function.update_of_ne (Nat.ne_of_gt hm) ..
  · exact h.count_succ
  · exact ⟨hacc.adding, hsub, hacc.held_update hst, hacc.others, hacc.emissions⟩

/-- The slots that are left go one by one, from the front. -/
theorem Resetting.all (h : Resetting sbo s i slots pending) :
    Resetting sbo (resetSlots slots.length i s) (i + slots.length) [] pending := by
  induction slots generalizing i s with
  | nil => exact h
  | cons r slots ih =>
    rw [List.length_cons, resetSlots, show i + (slots.length + 1) = i + 1 + slots.length by omega]
    exact ih h.slot

theorem TableInv.internalReset (h : TableInv maxParticipants sbo s slots pending) :
    TableInv maxParticipants sbo s.internalReset [] pending := by
  have hstart : Resetting sbo s 0 slots pending := by
    refine ⟨?_, ?_, ?_, ?_, h.accounted⟩
    · intro m hm
      exact absurd hm (Nat.not_lt_zero m)
    · simpa only [Nat.zero_add] using h.participants
    · simpa only [Nat.zero_add] using h.connections
    · rw [h.count, Nat.zero_add]
  have hend := hstart.all
  rw [← h.count, Nat.zero_add] at hend
  -- all slots are empty: those before the end, and those behind it
  have hempty : ∀ m, (resetSlots s.count 0 s).participants m = none ∧
      (resetSlots s.count 0 s).errorConnections m = .empty := by
    intro m
    rcases Nat.lt_or_ge m s.count with hlt | hge
    · exact hend.before m hlt
    · rw [← Nat.add_sub_cancel' hge]
      exact ⟨hend.participants (m - s.count), hend.connections (m - s.count)⟩
  have hacc := hend.accounted
  refine ⟨fun m => (hempty m).1, fun m => (hempty m).2, rfl, Nat.zero_le _, ?_⟩
  exact ⟨hacc.adding, hacc.subscribed, hacc.held, hacc.others, hacc.emissions⟩

/-! ## What the invariant says -/

/-- The connection is to a clone of the bus, in the error signal of the participant, which
exists. -/
structure LiveConnection (s : ParticipantTable Topic) (c : Connection) (p : ℕ) : Prop where
  connected : c.connected = true
  disconnectFn : c.disconnectFn = true
  signal : c.ctx1 = some p
  alive : (s.signals p).alive = true
  clone : ∃ n, c.ctx2 = some n ∧ n ∈ (s.signals p).delegates ∧ s.targets[n]? = some .bus

theorem TableInv.liveConnection (h : TableInv maxParticipants sbo s slots pending)
    (hp : s.participants i = some p) : s.LiveConnection (s.errorConnections i) p := by
  have hi : i < slots.length := by
    by_contra hge
    rw [h.participants.of_ge (by rw [List.length_map]; omega)] at hp
    cases hp
  rcases h.slot hi with ⟨hparticipant, hconnection⟩
  rw [hparticipant, Option.some.injEq] at hp
  subst hp
  have hreg : (slots[i].1, slots[i].2) ∈ slots ++ pending :=
    List.mem_append_left _ (List.getElem_mem hi)
  have hsub := h.accounted.subscribed
  have hmem := (hsub.mem _ _).mp hreg
  rw [hconnection]
  exact ⟨rfl, rfl, rfl, hsub.alive hreg, slots[i].2, rfl, hmem.1, of_decide_eq_true hmem.2⟩

theorem TableInv.clone_injective (h : TableInv maxParticipants sbo s slots pending) {j : ℕ}
    (hi : i < s.count) (hj : j < s.count)
    (heq : (s.errorConnections i).ctx2 = (s.errorConnections j).ctx2) : i = j := by
  rw [h.count] at hi hj
  rw [(h.slot hi).2, (h.slot hj).2] at heq
  have hclones := h.accounted.subscribed.clones
  rw [List.map_append] at hclones
  have hnodup := (List.nodup_append.mp hclones).1
  have hi' : i < (slots.map Prod.snd).length := by rwa [List.length_map]
  have hj' : j < (slots.map Prod.snd).length := by rwa [List.length_map]
  have hsame : (slots.map Prod.snd)[i] = (slots.map Prod.snd)[j] := by
    rw [List.getElem_map, List.getElem_map]
    exact Option.some.inj heq
  exact hnodup.getElem_inj_iff.mp hsame

/-! ## The other steps -/

theorem TableInv.alive_of_referenced (h : TableInv maxParticipants sbo s slots pending)
    (href : s.referenced p = true) : (s.signals p).alive = true := by
  unfold referenced at href
  rw [Bool.or_eq_true, Bool.or_eq_true, List.any_eq_true, List.any_eq_true] at href
  rcases href with (hheld | ⟨i, -, hi⟩) | ⟨a, ha, hap⟩
  · exact h.accounted.held p hheld
  · exact (h.liveConnection (of_decide_eq_true hi)).alive
  · rw [h.accounted.adding, List.mem_map] at ha
    rcases ha with ⟨r, hr, rfl⟩
    have hrp : r.1 = p := of_decide_eq_true hap
    rw [← hrp]
    exact h.accounted.subscribed.alive (List.mem_append_right _ hr)

theorem TableInv.share (h : TableInv maxParticipants sbo s slots pending)
    (href : s.referenced p = true) :
    TableInv maxParticipants sbo { s with held := Function.update s.held p true } slots
      pending := by
  have hacc := h.accounted
  refine ⟨h.participants, h.connections, h.count, h.bound, hacc.adding, hacc.subscribed, ?_,
    hacc.others, hacc.emissions⟩
  show ∀ q, Function.update s.held p true q = true → (s.signals q).alive = true
  rw [Function.forall_update_iff s.held fun q b => b = true → (s.signals q).alive = true]
  exact ⟨fun _ => h.alive_of_referenced href, fun q _ => hacc.held q⟩

/-- The last pointer from outside goes. A slot and an addition have their own. -/
theorem TableInv.drop (h : TableInv maxParticipants sbo s slots pending) (p : ℕ) :
    TableInv maxParticipants sbo
      (({ s with held := Function.update s.held p false }).release p) slots pending := by
  have hacc := h.accounted
  have hheld : ∀ q, Function.update s.held p false q = true → q ≠ p ∧ s.held q = true := by
    rw [Function.forall_update_iff s.held fun q b => b = true → q ≠ p ∧ s.held q = true]
    refine ⟨?_, fun q hq hb => ⟨hq, hb⟩⟩
    intro hfalse
    cases hfalse
  unfold release
  split
  · refine ⟨h.participants, h.connections, h.count, h.bound, hacc.adding, hacc.subscribed, ?_,
      hacc.others, hacc.emissions⟩
    exact fun q hq => hacc.held q (hheld q hq).2
  · rename_i href
    have hfalse := Bool.eq_false_of_not_eq_true href
    have hnone : ∀ n, (p, n) ∉ slots ++ pending := by
      refine not_referenced (i := 0) ?_ ?_ ?_ hfalse
      · simpa only [Nat.zero_add] using h.participants
      · rw [Nat.zero_add]
        exact h.count
      · exact hacc.adding
    refine ⟨h.participants, h.connections, h.count, h.bound, hacc.adding, ?_, ?_, hacc.others,
      hacc.emissions⟩
    · -- the signal dies, and no registration with it
      exact hacc.subscribed.destroy (List.Sublist.refl _) (fun r hr _ => hr) hnone
    · intro q hq
      show (Function.update s.signals p _ q).alive = true
      rw [Function.update_of_ne (hheld q hq).1]
      exact hacc.held q (hheld q hq).2

theorem TableInv.registrations (h : TableInv maxParticipants sbo s slots pending) (p : ℕ) :
    s.registrations p = slots.countP (·.1 = p) := by
  have hmap := h.participants.map_range
  rw [List.length_map, ← h.count] at hmap
  have hcount : s.registrations p =
      ((List.range s.count).map s.participants).countP (· = some p) := by
    rw [List.countP_map]
    rfl
  rw [hcount, hmap, List.countP_map]
  apply List.countP_congr
  intro r hr
  simp only [Function.comp_apply, Option.some.injEq]

theorem TableInv.additions (h : TableInv maxParticipants sbo s slots pending) (p : ℕ) :
    s.additions p = pending.countP (·.1 = p) := by
  unfold ParticipantTable.additions
  rw [h.accounted.adding, List.countP_map]
  rfl

/-- The clones of the bus in the signal of a participant are one for each of its slots, and one
for each of its additions that have not come to the lock. -/
theorem TableInv.busSubscriptions (h : TableInv maxParticipants sbo s slots pending) (p : ℕ) :
    s.busSubscriptions p = s.registrations p + s.additions p := by
  rw [h.registrations, h.additions, ← List.countP_append]
  exact h.accounted.subscribed.countP p

/-- Errors change the latches, the emissions and what the bus has fired, and nothing else. -/
theorem TableInv.report (h : TableInv maxParticipants sbo s slots pending)
    {latch : ErrorLatch Topic} {latches : ℕ → ErrorLatch Topic}
    {errors : List (Topic × DelegateError)} {emissions : List (Emission Topic)}
    (hemissions : Log.Forall (fun _ e => ∃ g, Exact sbo s.targets e g) emissions) :
    TableInv maxParticipants sbo
      { s with latch := latch, latches := latches, errors := errors, emissions := emissions }
      slots pending where
  participants := h.participants
  connections := h.connections
  count := h.count
  bound := h.bound
  accounted :=
    have hacc := h.accounted
    ⟨hacc.adding, hacc.subscribed, hacc.held, hacc.others, hemissions⟩

/-! ## The additions that survive -/

/-- The participants of the table after one more label. -/
def survive : List ℕ → TableLabel Topic → List ℕ
  | l, .addLocked a => l ++ [a.participant]
  | l, .removeParticipant (some p) => l.erase p
  | _, .resetForTesting => []
  | l, _ => l

/-- What the additions of a run leave in the table, in their order: a removal takes the
earliest addition of its participant, a reset all. -/
def survivors (ls : List (TableLabel Topic)) : List ℕ := ls.foldl survive []

theorem survivors_concat (ls : List (TableLabel Topic)) (l : TableLabel Topic) :
    survivors (ls ++ [l]) = survive (survivors ls) l := List.foldl_concat ..

theorem TableInv.removeParticipant (h : TableInv maxParticipants sbo s slots pending)
    (participant : Option ℕ) :
    ∃ slots', TableInv maxParticipants sbo (s.removeParticipant participant) slots' pending ∧
      slots'.map Prod.fst =
        survive (slots.map Prod.fst) (.removeParticipant participant : TableLabel Topic) := by
  have hfind := h.findSlot participant
  cases participant with
  | none =>
    -- no slot in use is null
    have hnone : s.findSlot none = none := by
      rw [hfind, List.idxOf?_eq_none_iff, List.mem_map]
      rintro ⟨r, -, hr⟩
      cases hr
    refine ⟨slots, ?_, rfl⟩
    unfold ParticipantTable.removeParticipant
    rw [hnone]
    exact h
  | some p =>
    have herase : ((slots.map Prod.fst).erase p).map some =
        (slots.map fun r => some r.1).erase (some p) := by
      rw [List.map_erase (Option.some_injective _), List.map_map]
      rfl
    rw [List.erase_eq_eraseIdx (slots.map fun r => some r.1), ← hfind] at herase
    cases hslot : s.findSlot (some p) with
    | none =>
      rw [hslot] at herase
      refine ⟨slots, ?_, ?_⟩
      · unfold ParticipantTable.removeParticipant
        rw [hslot]
        exact h
      · apply List.map_injective_iff.mpr (Option.some_injective _)
        rw [List.map_map]
        exact herase.symm
    | some i =>
      rw [hslot] at herase
      refine ⟨slots.eraseIdx i, h.removeSlot hslot, ?_⟩
      apply List.map_injective_iff.mpr (Option.some_injective _)
      rw [List.map_map]
      show (slots.eraseIdx i).map (fun r => some r.1) = _
      rw [← List.eraseIdx_map]
      exact herase.symm

/-- The list of participants in `DataBus` is what the arrays hold: an addition fails there
exactly when the `ASSERT` ends the program here. -/
theorem TableInv.internalAddParticipant {Ty V : Type*}
    (h : TableInv maxParticipants sbo s slots pending) {b : DataBus Topic Ty V}
    (hb : b.participants = slots.map Prod.fst) {r : ℕ × ℕ} (hr : r ∈ pending) :
    match b.internalAddParticipant maxParticipants r.1 with
    | some b' => ∃ slots' pending', TableInv maxParticipants sbo
        (s.addLocked maxParticipants (addition r)) slots' pending' ∧
        b'.participants = slots'.map Prod.fst
    | none => (s.addLocked maxParticipants (addition r)).ended = true := by
  unfold DataBus.internalAddParticipant
  rw [hb, List.length_map, ← h.count]
  by_cases hlt : s.count < maxParticipants
  · rw [if_pos hlt]
    refine ⟨slots ++ [r], pending.erase r, h.addLocked hr hlt, ?_⟩
    rw [List.map_append]
    rfl
  · rw [if_neg hlt, ParticipantTable.addLocked, if_neg hlt]

theorem TableInv.internalRemoveParticipant {Ty V : Type*}
    (h : TableInv maxParticipants sbo s slots pending) {b : DataBus Topic Ty V}
    (hb : b.participants = slots.map Prod.fst) (p : ℕ) :
    ∃ slots', TableInv maxParticipants sbo (s.removeParticipant (some p)) slots' pending ∧
      (b.internalRemoveParticipant p).participants = slots'.map Prod.fst := by
  rcases h.removeParticipant (some p) with ⟨slots', hinv, hslots⟩
  refine ⟨slots', hinv, ?_⟩
  rw [hslots, ← hb]
  rfl

theorem guard_ended {l : TableLabel Topic} (hg : guard sbo l s) : s.ended = false := by
  cases l with
  | resetForTesting => exact hg
  | enableContinuousErrors _ => exact hg
  | _ => exact hg.1

variable [DecidableEq Topic]

/-- The snapshot has one clone of the bus for each registration. -/
theorem TableInv.channelError (h : TableInv maxParticipants sbo s slots pending) (p : ℕ)
    (topic : Topic) (error : DelegateError) :
    TableInv maxParticipants sbo (s.onChannelError sbo p topic error) slots pending := by
  have hacc := h.accounted
  unfold onChannelError
  split
  · exact h
  · simp only
    split
    · apply h.report
      apply hacc.emissions.concat
      refine ⟨⟨(s.signals p).delegates, []⟩, ⟨rfl, rfl, rfl, rfl⟩, ?_, ?_, rfl⟩
      · exact hacc.subscribed.known p
      · exact h.busSubscriptions p
    · exact h.report hacc.emissions

/-- `InternalReportLatchedError` changes neither the table nor the signals. -/
theorem TableInv.next (h : TableInv maxParticipants sbo s slots pending)
    (hi : ∃ e ∈ s.emissions[i]?, ¬ e.fire.finished sbo) :
    TableInv maxParticipants sbo (s.next sbo i) slots pending := by
  have hacc := h.accounted
  rcases hi with ⟨e, he, hunfinished⟩
  rw [Option.mem_def] at he
  have hemissions := hacc.emissions.modify (k := i) (f := fun e =>
      { e with fire := e.fire.next sbo, reports := e.reports + (s.reportsNext sbo e).toNat }) <| by
    intro e' he'
    rw [he, Option.some.injEq] at he'
    subst he'
    rcases hacc.emissions i e he with ⟨g, hg⟩
    exact ⟨_, hg.next hunfinished⟩
  unfold ParticipantTable.next
  rw [he]
  simp only
  split
  · exact h.report hemissions
  · exact h.report hemissions

/-! ## Runs -/

/-- One step, of any thread. -/
theorem TableInv.step (h : TableInv maxParticipants sbo s slots pending)
    (l : TableLabel Topic) (hg : guard sbo l s)
    (hended : (update maxParticipants sbo l s).ended = false) :
    ∃ slots' pending', TableInv maxParticipants sbo (update maxParticipants sbo l s) slots'
      pending' ∧ slots'.map Prod.fst = survive (slots.map Prod.fst) l := by
  cases l with
  | addParticipant p => exact ⟨slots, _, h.addParticipant hg.2, rfl⟩
  | addLocked a =>
    have ha := hg.2
    rw [h.accounted.adding, List.mem_map] at ha
    rcases ha with ⟨r, hr, rfl⟩
    refine ⟨slots ++ [r], pending.erase r, h.addLocked hr ?_, ?_⟩
    · -- otherwise the `ASSERT` has ended the program
      by_contra hfull
      simp only [update, ParticipantTable.addLocked, if_neg hfull] at hended
      cases hended
    · rw [List.map_append]
      rfl
  | removeParticipant participant =>
    rcases h.removeParticipant participant with ⟨slots', hinv, hslots⟩
    exact ⟨slots', pending, hinv, hslots⟩
  | resetForTesting => exact ⟨[], pending, h.internalReset, rfl⟩
  | enableContinuousErrors _ => exact ⟨slots, pending, h.report h.accounted.emissions, rfl⟩
  | subscribeError p callback => exact ⟨slots, pending, h.subscribeError hg.2 callback, rfl⟩
  | disconnect c => exact ⟨slots, pending, h.disconnect hg.2, rfl⟩
  | share p => exact ⟨slots, pending, h.share hg.2, rfl⟩
  | drop p => exact ⟨slots, pending, h.drop p, rfl⟩
  | channelError p topic error => exact ⟨slots, pending, h.channelError p topic error, rfl⟩
  | next i => exact ⟨slots, pending, h.next hg.2, rfl⟩

/-- Every run that no `ASSERT` has ended. -/
theorem TableInv.run {ls : List (TableLabel Topic)}
    (hrun : (participantLts Topic maxParticipants sbo).Run ParticipantTable.initial ls s)
    (hended : s.ended = false) :
    ∃ slots pending, TableInv maxParticipants sbo s slots pending ∧
      slots.map Prod.fst = survivors ls := by
  induction hrun with
  | nil => exact ⟨[], [], TableInv.initial, rfl⟩
  | concat _ hg ih =>
    rcases ih (guard_ended hg) with ⟨slots, pending, hinv, hslots⟩
    rcases hinv.step _ hg hended with ⟨slots', pending', hinv', hslots'⟩
    refine ⟨slots', pending', hinv', ?_⟩
    rw [hslots', hslots, survivors_concat]

end ParticipantTable

open ParticipantTable in
/-- In every run that no `ASSERT` has ended: the slots in use are the first ones and hold the
participants of the surviving additions in their order, each with a live connection of its
own to the error signal of its participant; the other slots are empty. In the error signal of
a participant, the bus is as often as the participant is in the table, and once more for each
addition that has not come to the lock. An error calls the bus that often, and never more. -/
theorem participant_table_invariant {Topic : Type u} [DecidableEq Topic]
    (maxParticipants sbo : ℕ) (ls : List (TableLabel Topic)) (s : ParticipantTable Topic)
    (hrun : (participantLts Topic maxParticipants sbo).Run ParticipantTable.initial ls s)
    (hended : s.ended = false) :
    (s.count = (survivors ls).length ∧ s.count ≤ maxParticipants ∧
      ∀ i, s.participants i = (survivors ls)[i]?) ∧
    (∀ i p, s.participants i = some p → s.LiveConnection (s.errorConnections i) p) ∧
    (∀ i, s.count ≤ i → s.errorConnections i = .empty) ∧
    (∀ i j, i < s.count → j < s.count →
      (s.errorConnections i).ctx2 = (s.errorConnections j).ctx2 → i = j) ∧
    (∀ p, s.registrations p = (survivors ls).count p ∧
      s.busSubscriptions p = s.registrations p + s.additions p) ∧
    ∀ e ∈ s.emissions, e.reports ≤ e.registered + e.adding ∧
      (e.fire.finished sbo → e.reports = e.registered + e.adding) := by
  rcases TableInv.run hrun hended with ⟨slots, pending, h, hslots⟩
  rw [← hslots]
  refine ⟨⟨?_, ?_, ?_⟩, ?_, ?_, ?_, ?_, ?_⟩
  · rw [List.length_map]
    exact h.count
  · rw [h.count]
    exact h.bound
  · intro i
    rw [h.participants i, List.getElem?_map, List.getElem?_map]
    cases slots[i]? with
    | none => rfl
    | some r => rfl
  · exact fun i p hi => h.liveConnection hi
  · intro i hi
    apply h.connections.of_ge
    rw [List.length_map, ← h.count]
    exact hi
  · exact fun i j hi hj => h.clone_injective hi hj
  · intro p
    refine ⟨?_, h.busSubscriptions p⟩
    rw [h.registrations, List.count_eq_countP, List.countP_map]
    rfl
  · intro e he
    rcases List.getElem?_of_mem he with ⟨i, hi⟩
    rcases h.accounted.emissions i e hi with ⟨g, hg⟩
    exact ⟨hg.reports_le, hg.reports_finished⟩

open ParticipantTable in
/-- Participant 5 is added twice and participant 6 between; the first addition of 5 is
removed, an unknown participant and a null pointer are not found, and 7 is added behind the
two that moved down. An error of 5 calls the bus once. Participant 6 is removed from the
front. -/
theorem participant_table_invariant_run : ∃ (ls : List (TableLabel ℕ)) (s : ParticipantTable ℕ),
    (participantLts ℕ 3 2).Run ParticipantTable.initial ls s ∧ survivors ls = [5, 7] ∧
      s.count = 2 ∧ s.participants 0 = some 5 ∧ s.LiveConnection (s.errorConnections 0) 5 ∧
      s.errorConnections 2 = .empty ∧ s.busSubscriptions 6 = 0 ∧
      s.emissions.map (fun e => (e.participant, e.reports)) = [(5, 1)] := by
  obtain ⟨s, hs, hp⟩ := (participantLts ℕ 3 2).exec_labelled ParticipantTable.initial
    [.addParticipant 5, .addLocked (addition (5, 0)), .addParticipant 6,
      .addLocked (addition (6, 1)), .addParticipant 5, .addLocked (addition (5, 2)),
      .removeParticipant (some 5), .removeParticipant (some 9), .removeParticipant none,
      .addParticipant 7, .addLocked (addition (7, 3)), .drop 7,
      .channelError 5 1 .errDeserialize, .next 0, .removeParticipant (some 6)]
    (fun s => !s.ended && decide (s.participants 0 = some 5) && decide (s.additions 6 = 0) &&
      decide (s.emissions.map (fun e => (e.participant, e.reports)) = [(5, 1)]))
    (by decide +kernel)
  simp only [Bool.and_eq_true, Bool.not_eq_true', decide_eq_true_iff] at hp
  rcases hp with ⟨⟨⟨hended, hfirst⟩, hadding⟩, hreports⟩
  rcases participant_table_invariant 3 2 _ s hs hended with
    ⟨⟨hcount, -, -⟩, hlive, hempty, -, hbus, -⟩
  have hcount' : s.count = 2 := hcount
  refine ⟨_, s, hs, rfl, hcount', hfirst, hlive 0 5 hfirst, ?_, ?_, hreports⟩
  · apply hempty
    rw [hcount']
  · rw [(hbus 6).2, (hbus 6).1, hadding]
    rfl

end AsyncSqlite
