import AsyncSqlite.Delegate.Signal
import Mathlib.Tactic.Common

/-!
# AsyncSqlite.Delegate.LiveSignal — a signal is a list of live subscriptions

`Refines` relates the state blocks, clones and handles of `Signal` to the list
of `LiveSignal`. Its handle part is what survives moves, `Clear` and
destruction: the clone that a connected handle holds is in no other block than
the handle's own, so disconnecting it can only take that subscription away.
-/

namespace AsyncSqlite

universe u

/-! ## Snapshots -/

namespace Snapshot

theorem fill_of_lt (ds : List ℕ) {i k : ℕ} (hk : k < i) (buf : ℕ → Option ℕ) :
    fill ds i buf k = buf k := by
  induction ds generalizing i buf with
  | nil => rfl
  | cons d ds ih =>
    unfold fill
    rw [ih (by omega), Function.update_of_ne (by omega)]

theorem fill_add (ds : List ℕ) (i : ℕ) {k : ℕ} (hk : k < ds.length) (buf : ℕ → Option ℕ) :
    fill ds i buf (i + k) = ds[k]? := by
  induction ds generalizing i k buf with
  | nil => simp at hk
  | cons d ds ih =>
    unfold fill
    rcases k with _ | k
    · rw [fill_of_lt ds (by omega)]
      simp
    · have hk' : k < ds.length := by simpa using hk
      have hadd : i + (k + 1) = i + 1 + k := by omega
      rw [hadd, ih (i + 1) hk', List.getElem?_cons_succ]

theorem rounds_take (sbo : ℕ) (l : List ℕ) : (take sbo l).rounds sbo = l.length := by
  unfold take
  split
  · rename_i h
    simp [rounds, h]
  · simp [rounds]

/-- Both storage paths hold the list. -/
theorem slot_take (sbo : ℕ) (l : List ℕ) {k : ℕ} (hk : k < l.length) :
    (take sbo l).slot sbo k = l[k]? := by
  unfold take
  split
  · rename_i h
    have hfill := fill_add l 0 hk fun _ => none
    rw [Nat.zero_add] at hfill
    simp [slot, h, hfill]
  · rename_i h
    simp [slot, h]

end Snapshot

variable {D : Type u} {sbo : ℕ} {s s' : Signal D} {a : LiveSignal D}

/-! ## The refinement relation -/

namespace Signal

/-- The connection can disconnect the subscription `n`, and only that one. -/
structure Owns (s : Signal D) (c : Connection) (n : ℕ) : Prop where
  fn : c.disconnectFn = true
  copy : c.ctx2 = some n
  known : n < s.copies.length
  home : ∃ b, c.ctx1 = some b ∧ b < s.blocks ∧ ∀ b', n ∈ (s.block b').delegates → b' = b

/-- A handle object and what the abstract signal says about it. -/
inductive Holds (s : Signal D) : Option Connection → Option (Option ℕ) → Prop
  | absent : Holds s none none
  | free (c : Connection) : c.connected = false → Holds s (some c) (some none)
  | owner (c : Connection) (n : ℕ) : c.connected = true → s.Owns c n →
      Holds s (some c) (some (some n))

structure FireRel (sbo : ℕ) (f : Fire) (g : LiveFire) : Prop where
  snapshot : f.snapshot = Snapshot.take sbo g.snapshot
  invoked : f.invoked = g.invoked
  round : f.round = g.invoked.length
  front : g.invoked = g.snapshot.take g.invoked.length

structure Refines (sbo : ℕ) (s : Signal D) (a : LiveSignal D) : Prop where
  live : s.delegates = a.live
  copies : s.copies = a.subscribed
  destroyed : s.destroyed = a.destroyed
  alive : s.destroyed = false → (s.block s.state).alive = true
  dead : ∀ b, (s.block b).alive = false → (s.block b).delegates = []
  known : ∀ b, ∀ n ∈ (s.block b).delegates, n < s.copies.length
  state : s.state < s.blocks
  clearing : ∀ b ∈ s.clearing, b < s.blocks ∧ b ≠ s.state
  handle : ∀ h, s.Holds (s.connection h) (a.holder h)
  fires : s.fires = a.fires
  fire : ∀ i, FireRel sbo (s.fire i) (a.fire i)

/-- A handle keeps its subscription while the blocks lose delegates and gain
new ones. -/
theorem Holds.mono {x : Option Connection} {y : Option (Option ℕ)} (h : s.Holds x y)
    (hblocks : s.blocks ≤ s'.blocks) (hcopies : s.copies.length ≤ s'.copies.length)
    (hsub : ∀ b n, n < s.copies.length → n ∈ (s'.block b).delegates → n ∈ (s.block b).delegates) :
    s'.Holds x y := by
  rcases h with _ | ⟨c, hc⟩ | ⟨c, n, hc, hfn, hcopy, hknown, b, hctx, hb, hhome⟩
  · exact .absent
  · exact .free c hc
  · refine .owner c n hc ⟨hfn, hcopy, by omega, b, hctx, by omega, ?_⟩
    intro b' hn
    exact hhome b' (hsub b' n hknown hn)

theorem Holds.isSome {x : Option Connection} {y : Option (Option ℕ)} (h : s.Holds x y) :
    (x.isSome = true ↔ y ≠ none) ∧ (x.isNone = true ↔ y = none) := by
  rcases h with _ | _ | _ <;> simp

theorem Holds.connected {x : Option Connection} {y : Option (Option ℕ)} (h : s.Holds x y) :
    x.any (·.connected) = y.any (·.isSome) := by
  rcases h with _ | ⟨c, hc⟩ | ⟨c, n, hc, -⟩
  · rfl
  · simp [hc]
  · simp [hc]

theorem Refines.initial : Refines sbo (initial : Signal D) LiveSignal.initial where
  live := rfl
  copies := rfl
  destroyed := rfl
  alive := fun _ => rfl
  dead := by simp [Signal.initial]
  known := by simp [Signal.initial]
  state := Nat.zero_lt_one
  clearing := by simp [Signal.initial]
  handle := fun _ => .absent
  fires := rfl
  fire := fun _ => ⟨by simp [Signal.initial, LiveSignal.initial, Snapshot.take, Snapshot.fill],
    rfl, rfl, rfl⟩

/-! ## The operations -/

theorem Refines.setConnection (hr : Refines sbo s a) (h : ℕ) {x : Option Connection}
    {y : Option (Option ℕ)} (hx : s.Holds x y) :
    Refines sbo (s.setConnection h x) (a.setHolder h y) where
  live := hr.live
  copies := hr.copies
  destroyed := hr.destroyed
  alive := hr.alive
  dead := hr.dead
  known := hr.known
  state := hr.state
  clearing := hr.clearing
  handle := by
    intro k
    by_cases hk : k = h
    · subst hk
      simp only [Signal.setConnection, LiveSignal.setHolder, Function.update_self]
      exact hx.mono (Nat.le_refl _) (Nat.le_refl _) fun _ _ _ hn => hn
    · simp only [Signal.setConnection, LiveSignal.setHolder, Function.update_of_ne hk]
      exact (hr.handle k).mono (Nat.le_refl _) (Nat.le_refl _) fun _ _ _ hn => hn
  fires := hr.fires
  fire := hr.fire

/-- A new clone in the current block. -/
theorem Refines.subscribe (hr : Refines sbo s a) (d : D) (hd : s.destroyed = false) :
    Refines sbo
      ({ s with copies := s.copies ++ [d] }.setBlock s.state
        { s.block s.state with delegates := (s.block s.state).delegates ++ [s.copies.length] })
      { a with
        live := a.live ++ [a.subscribed.length], subscribed := a.subscribed ++ [d] } where
  live := by
    have := hr.live
    simp only [delegates] at this
    simp [delegates, setBlock, this, hr.copies]
  copies := by simp [setBlock, hr.copies]
  destroyed := hr.destroyed
  alive := fun _ => by simp [setBlock, hr.alive hd]
  dead := by
    intro b hb
    by_cases hbs : b = s.state
    · subst hbs
      simp [setBlock, hr.alive hd] at hb
    · simp only [setBlock, Function.update_of_ne hbs] at hb ⊢
      exact hr.dead b hb
  known := by
    intro b n hn
    -- the new clone takes the number behind all that are known
    simp only [setBlock, List.length_append, List.length_singleton]
    by_cases hbs : b = s.state
    · subst hbs
      simp only [setBlock, Function.update_self, List.mem_append, List.mem_singleton] at hn
      rcases hn with hn | rfl
      · have := hr.known _ n hn
        omega
      · omega
    · simp only [setBlock, Function.update_of_ne hbs] at hn
      have := hr.known b n hn
      omega
  state := hr.state
  clearing := hr.clearing
  handle := by
    intro h
    refine (hr.handle h).mono (Nat.le_refl _) (by simp [setBlock]) ?_
    intro b n hlt hn
    by_cases hbs : b = s.state
    · subst hbs
      simp only [setBlock, Function.update_self, List.mem_append, List.mem_singleton] at hn
      rcases hn with hn | rfl
      · exact hn
      · omega
    · simpa only [setBlock, Function.update_of_ne hbs] using hn
  fires := hr.fires
  fire := hr.fire

theorem Refines.connect (hr : Refines sbo s a) (h : ℕ) (d : D) (hd : s.destroyed = false) :
    Refines sbo (s.connect h d) (a.connect h d) := by
  have hsub := hr.subscribe d hd
  have hknown := hr.known
  refine hsub.setConnection h ?_
  rw [hr.copies]
  refine .owner _ _ rfl ⟨rfl, rfl, ?_, s.state, rfl, hr.state, ?_⟩
  · simp [setBlock]
  · -- the number of the clone is new, so no other block has it
    intro b hn
    by_contra hbs
    simp only [setBlock, Function.update_of_ne hbs] at hn
    have hlt := hknown b _ hn
    rw [hr.copies] at hlt
    exact Nat.lt_irrefl _ hlt

/-- Disconnecting through a handle that owns `n` takes `n` out of every block
that has it. -/
theorem Refines.disconnectImpl_delegates (hr : Refines sbo s a) {c : Connection} {n b : ℕ}
    (ho : s.Owns c n) (hb : c.ctx1 = some b) (b' : ℕ) :
    ((s.disconnectImpl b n).block b').delegates = (s.block b').delegates.filter (· ≠ n) := by
  rcases ho.home with ⟨b₁, hb₁, -, hhome⟩
  have hbb : b₁ = b := by
    rw [hb] at hb₁
    exact (Option.some.inj hb₁).symm
  subst hbb
  have hother : ∀ b', b' ≠ b₁ → (s.block b').delegates.filter (· ≠ n) = (s.block b').delegates := by
    intro b' hne
    rw [List.filter_eq_self]
    intro x hx
    have hxn : x ≠ n := by
      rintro rfl
      exact hne (hhome b' hx)
    simpa using hxn
  unfold disconnectImpl
  split
  · by_cases hbb' : b' = b₁
    · subst hbb'
      simp [setBlock]
    · rw [hother b' hbb']
      simp [setBlock, Function.update_of_ne hbb']
  · -- a dead block is empty
    rename_i hdead
    by_cases hbb' : b' = b₁
    · subst hbb'
      rw [hr.dead b' (by simpa using hdead)]
      rfl
    · rw [hother b' hbb']

theorem disconnectImpl_alive (s : Signal D) (b n b' : ℕ) :
    ((s.disconnectImpl b n).block b').alive = (s.block b').alive := by
  unfold disconnectImpl
  split
  · by_cases hbb' : b' = b
    · subst hbb'
      simp [setBlock]
    · simp [setBlock, Function.update_of_ne hbb']
  · rfl

theorem disconnectImpl_eq (s : Signal D) (b n : ℕ) :
    s.disconnectImpl b n = { s with block := (s.disconnectImpl b n).block } := by
  unfold disconnectImpl
  split <;> rfl

/-- The handle lets go of its subscription. -/
theorem Refines.unsubscribe (hr : Refines sbo s a) {c : Connection} {n b : ℕ}
    (ho : s.Owns c n) (hb : c.ctx1 = some b) :
    Refines sbo (s.disconnectImpl b n) { a with live := a.live.filter (· ≠ n) } := by
  have hdel := hr.disconnectImpl_delegates ho hb
  have halive := disconnectImpl_alive s b n
  rw [disconnectImpl_eq]
  generalize (s.disconnectImpl b n).block = block at hdel halive
  refine ⟨?_, hr.copies, hr.destroyed, ?_, ?_, ?_, hr.state, hr.clearing, ?_, hr.fires, hr.fire⟩
  · have := hr.live
    simp only [delegates] at this ⊢
    rw [hdel, this]
  · intro hd
    rw [halive]
    exact hr.alive hd
  · intro b' hb'
    rw [halive] at hb'
    rw [hdel, hr.dead b' hb']
    rfl
  · intro b' x hx
    rw [hdel] at hx
    exact hr.known b' x ((List.mem_filter.mp hx).1)
  · intro h
    refine (hr.handle h).mono (Nat.le_refl _) (Nat.le_refl _) ?_
    intro b' x _ hx
    rw [hdel] at hx
    exact (List.mem_filter.mp hx).1

theorem Refines.disconnect (hr : Refines sbo s a) (h : ℕ) :
    Refines sbo (s.disconnect h) (a.disconnect h) := by
  have hh := hr.handle h
  unfold Signal.disconnect LiveSignal.disconnect
  generalize s.connection h = x at hh
  generalize a.holder h = y at hh
  rcases hh with _ | ⟨c, hc⟩ | ⟨c, n, hc, ho⟩
  -- no handle, a handle that holds nothing, and one that owns its subscription
  · exact hr
  · simpa [hc] using hr
  · rcases ho.home with ⟨b, hb, -⟩
    simp only [hc, if_true, ho.fn, ho.copy, hb]
    exact (hr.unsubscribe ho hb).setConnection h (.free _ rfl)

theorem disconnect_cases (s : Signal D) (h : ℕ) :
    s.disconnect h = s ∨ ∃ t : Signal D, s.disconnect h = t.setConnection h (some .empty) := by
  unfold Signal.disconnect
  split
  · split
    · exact Or.inr ⟨_, rfl⟩
    · exact Or.inl rfl
  · exact Or.inl rfl

/-- A second disconnect finds nothing to do. -/
theorem disconnect_disconnect (s : Signal D) (h : ℕ) :
    (s.disconnect h).disconnect h = s.disconnect h := by
  rcases disconnect_cases s h with heq | ⟨t, heq⟩
  · rw [heq, heq]
  · rw [heq]
    simp [Signal.disconnect, Signal.setConnection, Connection.empty]

theorem Refines.moveConstruct (hr : Refines sbo s a) (h other : ℕ) :
    Refines sbo (s.moveConstruct h other) (a.moveConstruct h other) :=
  (hr.setConnection h (hr.handle other)).setConnection other (.free _ rfl)

theorem Refines.moveAssign (hr : Refines sbo s a) (h other : ℕ) :
    Refines sbo (s.moveAssign h other)
      (if h = other then a else (a.disconnect h).moveConstruct h other) := by
  unfold Signal.moveAssign
  split
  · exact hr
  · rw [disconnect_disconnect]
    exact (hr.disconnect h).moveConstruct h other

theorem Refines.clearSwap (hr : Refines sbo s a) :
    Refines sbo s.clearSwap { a with live := [] } where
  live := by simp [delegates, Signal.clearSwap, setBlock]
  copies := hr.copies
  destroyed := hr.destroyed
  alive := fun _ => by simp [Signal.clearSwap, setBlock]
  -- the new block is the current one; the old one is marked later
  dead := by
    intro b hb
    by_cases hbs : b = s.blocks
    · subst hbs
      simp [Signal.clearSwap, setBlock] at hb
    · simp only [Signal.clearSwap, setBlock, Function.update_of_ne hbs] at hb ⊢
      exact hr.dead b hb
  known := by
    intro b n hn
    by_cases hbs : b = s.blocks
    · subst hbs
      simp [Signal.clearSwap, setBlock] at hn
    · simp only [Signal.clearSwap, setBlock, Function.update_of_ne hbs] at hn
      exact hr.known b n hn
  state := Nat.lt_succ_self _
  clearing := by
    have hstate := hr.state
    intro b hb
    simp only [Signal.clearSwap] at hb ⊢
    -- the block that was current is the one to mark
    rcases List.mem_cons.mp hb with rfl | hb
    · omega
    · have := hr.clearing b hb
      omega
  handle := by
    intro h
    refine (hr.handle h).mono (Nat.le_succ _) (Nat.le_refl _) ?_
    intro b n _ hn
    by_cases hbs : b = s.blocks
    · subst hbs
      simp [Signal.clearSwap, setBlock] at hn
    · simpa only [Signal.clearSwap, setBlock, Function.update_of_ne hbs] using hn
  fires := hr.fires
  fire := hr.fire

/-- A block is marked dead and emptied: the old one of a `Clear`, or the
current one of a signal that is destroyed. -/
theorem Refines.kill (hr : Refines sbo s a) {b : ℕ} {d : Bool} {live c : List ℕ}
    (hd : d = false → s.destroyed = false ∧ b ≠ s.state)
    (hlive : b = s.state ∧ live = [] ∨ b ≠ s.state ∧ live = a.live)
    (hclearing : ∀ b ∈ c, b ∈ s.clearing) :
    Refines sbo { s.setBlock b ⟨false, []⟩ with destroyed := d, clearing := c }
      { a with live := live, destroyed := d } where
  live := by
    have hlist := hr.live
    simp only [delegates, setBlock] at hlist ⊢
    -- only the current block counts for what is live
    rcases hlive with ⟨hb, rfl⟩ | ⟨hb, rfl⟩
    · rw [← hb, Function.update_self]
    · rw [Function.update_of_ne hb.symm, hlist]
  copies := hr.copies
  destroyed := rfl
  alive := by
    intro hfalse
    have hb := (hd hfalse).2.symm
    simp only [setBlock, Function.update_of_ne hb]
    exact hr.alive (hd hfalse).1
  dead := by
    intro b' hb'
    by_cases hbb : b' = b
    · subst hbb
      simp [setBlock]
    · simp only [setBlock, Function.update_of_ne hbb] at hb' ⊢
      exact hr.dead b' hb'
  known := by
    intro b' n hn
    by_cases hbb : b' = b
    · subst hbb
      simp [setBlock] at hn
    · simp only [setBlock, Function.update_of_ne hbb] at hn
      exact hr.known b' n hn
  state := hr.state
  clearing := fun b' hb' => hr.clearing b' (hclearing b' hb')
  handle := by
    intro h
    refine (hr.handle h).mono (Nat.le_refl _) (Nat.le_refl _) ?_
    intro b' n _ hn
    by_cases hbb : b' = b
    · subst hbb
      simp [setBlock] at hn
    · simpa only [setBlock, Function.update_of_ne hbb] using hn
  fires := hr.fires
  fire := hr.fire

theorem Refines.clearMark (hr : Refines sbo s a) {old : ℕ} (hold : old ∈ s.clearing) :
    Refines sbo (s.clearMark old) a := by
  have hne := (hr.clearing old hold).2
  have hkill := hr.kill (d := a.destroyed) (c := s.clearing.erase old)
    (fun hd => ⟨by rw [hr.destroyed, hd], hne⟩) (Or.inr ⟨hne, rfl⟩)
    fun b hb => List.mem_of_mem_erase hb
  rw [← hr.destroyed] at hkill
  have ha : { a with destroyed := s.destroyed } = a := by rw [hr.destroyed]
  rw [ha] at hkill
  exact hkill

theorem Refines.destroy (hr : Refines sbo s a) :
    Refines sbo s.destroy { a with live := [], destroyed := true } :=
  hr.kill (by simp) (Or.inl ⟨rfl, rfl⟩) fun _ hb => hb

/-! ## Fires -/

theorem Refines.setFire (hr : Refines sbo s a) (i : ℕ) {f : Fire} {g : LiveFire}
    (hf : FireRel sbo f g) {n m : ℕ} (hn : n = m) :
    Refines sbo { s with fire := Function.update s.fire i f, fires := n }
      { a with fire := Function.update a.fire i g, fires := m } where
  live := hr.live
  copies := hr.copies
  destroyed := hr.destroyed
  alive := hr.alive
  dead := hr.dead
  known := hr.known
  state := hr.state
  clearing := hr.clearing
  handle := fun h => (hr.handle h).mono (Nat.le_refl _) (Nat.le_refl _) fun _ _ _ hn => hn
  fires := hn
  fire := by
    intro k
    by_cases hk : k = i
    · subst hk
      simpa only [Function.update_self] using hf
    · simpa only [Function.update_of_ne hk] using hr.fire k

theorem Refines.fireBegin (hr : Refines sbo s a) :
    Refines sbo (s.fireBegin sbo)
      { a with fire := Function.update a.fire a.fires ⟨a.live, []⟩, fires := a.fires + 1 } := by
  unfold Signal.fireBegin
  rw [hr.fires]
  exact hr.setFire a.fires ⟨by rw [hr.live], rfl, rfl, rfl⟩ rfl

theorem FireRel.finished_iff {f : Fire} {g : LiveFire} (h : FireRel sbo f g) :
    f.finished sbo ↔ g.snapshot.length ≤ g.invoked.length := by
  unfold Fire.finished
  rw [h.snapshot, Snapshot.rounds_take, h.round]

/-- One round calls the next clone of the snapshot. -/
theorem FireRel.next {f : Fire} {g : LiveFire} (h : FireRel sbo f g)
    (hlt : g.invoked.length < g.snapshot.length) :
    FireRel sbo (f.next sbo)
      { g with invoked := g.snapshot.take (g.invoked.length + 1) } where
  snapshot := h.snapshot
  invoked := by
    have hslot : f.snapshot.slot sbo f.round = g.snapshot[g.invoked.length]? := by
      rw [h.snapshot, h.round]
      exact Snapshot.slot_take sbo g.snapshot hlt
    have hfront := h.front
    simp only [Fire.next, hslot, h.invoked, List.take_add_one]
    rw [← hfront]
  round := by
    have := h.round
    simp only [Fire.next, List.length_take]
    omega
  front := by
    simp only [List.length_take]
    congr 1
    omega

/-! ## The simulation -/

theorem simulation (D : Type u) (sbo : ℕ) :
    Lts.Simulation (signalLts D sbo) (liveLts D) (Refines sbo) where
  init := by
    rintro s rfl
    exact ⟨_, rfl, .initial⟩
  step := by
    intro l s a hr hg
    have hsome : ∀ {h}, (s.connection h).isSome = true → a.holder h ≠ none := fun {h} =>
      (hr.handle h).isSome.1.mp
    have hnone : ∀ {h}, (s.connection h).isNone = true → a.holder h = none := fun {h} =>
      (hr.handle h).isSome.2.mp
    have hlive : s.destroyed = false → a.destroyed = false := fun hd => hr.destroyed ▸ hd
    cases l with
    | create h => exact ⟨hnone hg, hr.setConnection h (.free _ rfl)⟩
    | connect h d => exact ⟨⟨hlive hg.1, hnone hg.2⟩, hr.connect h d hg.1⟩
    | disconnect h => exact ⟨hsome hg, hr.disconnect h⟩
    | moveConstruct h other => exact ⟨⟨hnone hg.1, hsome hg.2⟩, hr.moveConstruct h other⟩
    | moveAssign h other => exact ⟨⟨hsome hg.1, hsome hg.2⟩, hr.moveAssign h other⟩
    | destroyConnection h => exact ⟨hsome hg, (hr.disconnect h).setConnection h .absent⟩
    | clearSwap => exact ⟨hlive hg, hr.clearSwap⟩
    | clearMark old => exact ⟨trivial, hr.clearMark hg⟩
    | fire => exact ⟨hlive hg, hr.fireBegin⟩
    | next i =>
      -- a fire that is not finished has a clone of its snapshot left
      have hlt : (a.fire i).invoked.length < (a.fire i).snapshot.length := by
        have := hg.2
        rw [(hr.fire i).finished_iff] at this
        omega
      refine ⟨⟨?_, hlt⟩, hr.setFire i ((hr.fire i).next hlt) hr.fires⟩
      rw [← hr.fires]
      exact hg.1
    | destroy => exact ⟨hlive hg, hr.destroy⟩

end Signal

/-! ## The abstract signal -/

namespace LiveSignal

/-- Subscriptions are numbered in the order of their connection, and a fire
invokes its snapshot from the front. -/
structure LiveInv (a : LiveSignal D) : Prop where
  ordered : a.live.Pairwise (· < ·)
  known : ∀ n ∈ a.live, n < a.subscribed.length
  snapshot : ∀ i, (a.fire i).snapshot.Pairwise (· < ·)
  front : ∀ i, (a.fire i).invoked <+: (a.fire i).snapshot

theorem LiveInv.filter (h : LiveInv a) (p : ℕ → Bool) (holder : ℕ → Option (Option ℕ)) :
    LiveInv { a with live := a.live.filter p, holder := holder } :=
  ⟨h.ordered.filter p, fun n hn => h.known n (List.mem_filter.mp hn).1, h.snapshot, h.front⟩

theorem LiveInv.disconnect (h : LiveInv a) (k : ℕ) : LiveInv (a.disconnect k) := by
  unfold LiveSignal.disconnect
  split
  · exact h.filter _ _
  · exact h

theorem LiveInv.setHolder (h : LiveInv a) (k : ℕ) (x : Option (Option ℕ)) :
    LiveInv (a.setHolder k x) :=
  ⟨h.ordered, h.known, h.snapshot, h.front⟩

theorem LiveInv.moveConstruct (h : LiveInv a) (k other : ℕ) :
    LiveInv (a.moveConstruct k other) :=
  (h.setHolder k _).setHolder other _

theorem LiveInv.setFire (h : LiveInv a) (i n : ℕ) {g : LiveFire}
    (hs : g.snapshot.Pairwise (· < ·)) (hf : g.invoked <+: g.snapshot) :
    LiveInv { a with fire := Function.update a.fire i g, fires := n } := by
  refine ⟨h.ordered, h.known, fun k => ?_, fun k => ?_⟩ <;> by_cases hk : k = i
  · subst hk
    simpa only [Function.update_self] using hs
  · simpa only [Function.update_of_ne hk] using h.snapshot k
  · subst hk
    simpa only [Function.update_self] using hf
  · simpa only [Function.update_of_ne hk] using h.front k

theorem LiveInv.step {l : SignalLabel D} (h : LiveInv a) : LiveInv (update l a) := by
  cases l with
  | create k => exact h.setHolder k _
  | connect k d =>
    refine ⟨?_, ?_, h.snapshot, h.front⟩
    · unfold update LiveSignal.connect
      -- the new subscription is numbered behind all others
      rw [List.pairwise_append]
      refine ⟨h.ordered, by simp, ?_⟩
      intro n hn m hm
      rw [List.mem_singleton.mp hm]
      exact h.known n hn
    · intro n hn
      simp only [update, LiveSignal.connect, List.mem_append, List.mem_singleton,
        List.length_append, List.length_singleton] at hn ⊢
      rcases hn with hn | hn
      · have := h.known n hn
        omega
      · omega
  | disconnect k => exact h.disconnect k
  | moveConstruct k other => exact h.moveConstruct k other
  | moveAssign k other =>
    unfold update
    dsimp only
    split
    · exact h
    · exact (h.disconnect k).moveConstruct k other
  | destroyConnection k => exact (h.disconnect k).setHolder k none
  | clearSwap => exact ⟨List.Pairwise.nil, by simp [update], h.snapshot, h.front⟩
  | clearMark => exact h
  | fire => exact h.setFire a.fires _ h.ordered (List.nil_prefix)
  | next i => exact h.setFire i a.fires (h.snapshot i) (List.take_prefix _ _)
  | destroy => exact ⟨List.Pairwise.nil, by simp [update], h.snapshot, h.front⟩

theorem live_of_reachable (h : (liveLts D).Reachable a) : LiveInv a := by
  refine h.induct (P := LiveInv) ?_ fun _ _ _ _ _ ih => ih.step
  rintro a rfl
  exact ⟨List.Pairwise.nil, by simp [initial], by simp [initial], by simp [initial]⟩

/-- The subscription has been made and is not live. -/
def Ended (n : ℕ) (a : LiveSignal D) : Prop := n < a.subscribed.length ∧ n ∉ a.live

theorem Ended.disconnect {n : ℕ} (h : Ended n a) (k : ℕ) : Ended n (a.disconnect k) := by
  unfold LiveSignal.disconnect
  split
  · exact ⟨h.1, fun hn => h.2 (List.mem_filter.mp hn).1⟩
  · exact h

/-- A subscription that has ended stays so. -/
theorem Ended.step {n : ℕ} {l : SignalLabel D} (h : Ended n a) : Ended n (update l a) := by
  cases l with
  | connect k d =>
    refine ⟨?_, ?_⟩
    · have := h.1
      simp only [update, LiveSignal.connect, List.length_append]
      omega
    · simp only [update, LiveSignal.connect, List.mem_append, List.mem_singleton]
      rintro (hn | hn)
      · exact h.2 hn
      · exact absurd h.1 (by omega)
  | moveAssign k other =>
    unfold update
    dsimp only
    split
    · exact h
    · exact h.disconnect k
  | disconnect k => exact h.disconnect k
  | destroyConnection k => exact h.disconnect k
  | clearSwap | destroy => exact ⟨h.1, List.not_mem_nil⟩
  | create | moveConstruct | clearMark | fire | next => exact h

theorem Ended.steps {n : ℕ} {a' : LiveSignal D} (h : Ended n a)
    (hsteps : (liveLts D).Steps a a') : Ended n a' := by
  induction hsteps with
  | refl => exact h
  | tail _ hlast ih =>
    rcases hlast with ⟨l, -, -, rfl⟩
    exact ih.step

end LiveSignal

/-! ## Main result -/

namespace Signal

/-- Disconnecting a handle takes its own subscription out of the list. -/
theorem Refines.disconnect_delegates (hr : Refines sbo s a) {h n : ℕ}
    (hn : a.holder h = some (some n)) :
    (s.disconnect h).delegates = s.delegates.filter (· ≠ n) := by
  rw [(hr.disconnect h).live, hr.live]
  simp [LiveSignal.disconnect, hn]

/-- The disconnect of a subscription that has ended changes nothing. -/
theorem Refines.disconnect_ended (hr : Refines sbo s a) {h n : ℕ} {c : Connection}
    (hc : s.connection h = some c) (hcon : c.connected = true) (hcopy : c.ctx2 = some n)
    (hn : LiveSignal.Ended n a) : (s.disconnect h).delegates = s.delegates := by
  have hh := hr.handle h
  rw [hc] at hh
  generalize hy : a.holder h = y at hh
  rcases hh with _ | ⟨_, hfree⟩ | ⟨_, m, _, ho⟩
  · rw [hcon] at hfree
    cases hfree
  · have hm : m = n := by
      have := ho.copy
      rw [hcopy] at this
      exact (Option.some.inj this).symm
    subst hm
    rw [hr.disconnect_delegates hy, List.filter_eq_self]
    intro x hx
    rw [hr.live] at hx
    have hne : x ≠ m := by
      rintro rfl
      exact hn.2 hx
    simpa using hne

/-- **A signal refines a list of live connections.** The run with the same
labels leads `LiveSignal` to a state in which

* the list that a fire would use is the list of live subscriptions, in the
  order of their connection, and `IsConnected` says which handles hold one;
* every fire has invoked its snapshot from the front, each subscription once,
  and all of it when it has returned: the subscriptions that were live when it
  began, on either side of the limit `sbo`;
* disconnecting a handle takes exactly its own subscription out of the list,
  whatever delegates are equal;
* disconnecting, at any later time, a subscription that was made before a
  `Clear` or before the destruction of the signal changes nothing. -/
theorem signal_refines {ls : List (SignalLabel D)}
    (hrun : (signalLts D sbo).Run Signal.initial ls s) :
    ∃ a, (liveLts D).Run LiveSignal.initial ls a ∧
      s.delegates = a.live ∧ a.live.Pairwise (· < ·) ∧ s.copies = a.subscribed ∧
      (∀ h, s.isConnected h = (a.holder h).any (·.isSome)) ∧
      (∀ i, (a.fire i).snapshot.Pairwise (· < ·) ∧
        (s.fire i).invoked <+: (a.fire i).snapshot ∧
        ((s.fire i).finished sbo → (s.fire i).invoked = (a.fire i).snapshot)) ∧
      (∀ h n, a.holder h = some (some n) →
        (s.disconnect h).delegates = s.delegates.filter (· ≠ n)) ∧
      ∀ l, l = .clearSwap ∨ l = .destroy → guard sbo l s →
        ∀ s', (signalLts D sbo).Steps (update sbo l s) s' →
          ∀ h c n, s'.connection h = some c → c.connected = true → c.ctx2 = some n →
            n < s.copies.length → (s'.disconnect h).delegates = s'.delegates := by
  rcases (simulation D sbo).run hrun .initial with ⟨a, hrun', hr⟩
  have hinv := LiveSignal.live_of_reachable (hrun'.reachable rfl)
  refine ⟨a, hrun', hr.live, hinv.ordered, hr.copies, fun h => (hr.handle h).connected, ?_,
    fun h n hn => hr.disconnect_delegates hn, ?_⟩
  · intro i
    have hf := hr.fire i
    have hprefix : (s.fire i).invoked <+: (a.fire i).snapshot := by
      rw [hf.invoked]
      exact hinv.front i
    refine ⟨hinv.snapshot i, hprefix, fun hfin => ?_⟩
    have hlen := hf.finished_iff.mp hfin
    rw [hf.invoked] at hprefix ⊢
    exact hprefix.eq_of_length_le hlen
  -- what was live before a `Clear` has ended, and stays so in the abstract run
  · intro l hl hg s' hsteps h c n hc hcon hcopy hn
    have hstep := ((simulation D sbo).step l s a hr hg).2
    rcases (simulation D sbo).steps hsteps hstep with ⟨a', hsteps', hr'⟩
    have hended : LiveSignal.Ended n (LiveSignal.update l a) := by
      rw [hr.copies] at hn
      rcases hl with rfl | rfl <;> exact ⟨hn, List.not_mem_nil⟩
    exact hr'.disconnect_ended hc hcon hcopy (hended.steps hsteps')

/-- Two equal delegates are connected; a fire is in progress when its first
callback disconnects the second one, moves the handle of the first and clears
the signal. -/
def clearedRun : List (SignalLabel ℕ) :=
  [.connect 0 7, .connect 1 7, .fire, .next 0, .disconnect 1, .moveConstruct 2 0, .clearSwap,
    .clearMark 0, .next 0, .connect 3 7, .fire, .disconnect 2]

theorem signal_refines_run :
    ∃ s a, (signalLts ℕ 1).Run Signal.initial clearedRun s ∧
      (liveLts ℕ).Run LiveSignal.initial clearedRun a ∧
      s.delegates = [2] ∧ a.live = [2] ∧ (s.fire 0).invoked = [0, 1] ∧
      (a.fire 0).snapshot = [0, 1] := by
  obtain ⟨s, hrun, hp⟩ := (signalLts ℕ 1).exec_labelled Signal.initial clearedRun
    (fun s => s.delegates = [2] ∧ (s.fire 0).invoked = [0, 1] ∧ (s.fire 0).finished 1) (by decide)
  obtain ⟨hlive, hinv, hfin⟩ : _ ∧ _ ∧ _ := of_decide_eq_true hp
  rcases signal_refines hrun with ⟨a, hrun', heq, -, -, -, hfire, -⟩
  exact ⟨s, a, hrun, hrun', hlive, heq ▸ hlive, hinv, (hfire 0).2.2 hfin ▸ hinv⟩

end Signal

end AsyncSqlite
