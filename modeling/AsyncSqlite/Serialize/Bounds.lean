import AsyncSqlite.Serialize.Extent
import Mathlib.Order.Iterate

/-!
# AsyncSqlite.Serialize.Bounds — whether a read stays inside the declared object

`goes_object` carries `Goes` from the overloads to objects of any nesting. With it
`staysInside_iff` says when a `read(is, I*)` that leaves the stream good has kept
to the size field of its object: the stop position is looked at where a value, a
size or a text begins, so the read stays inside just when what begins inside the
object also ends there (`MembersFit`).
-/

namespace AsyncSqlite

universe u

namespace Serialize

/-! ## How far the overloads for objects go -/

section Objects

variable {C : Type u} {cls : Classes C} {m low : ℕ} {obj : C → Val → ReadM Val}
  {lay : View → C → ℕ → ℕ}

/-- A reader of objects that goes as far as `lay` says. -/
structure GoesObjects (m low : ℕ) (obj : C → Val → ReadM Val) (lay : View → C → ℕ → ℕ) : Prop where
  stops : ∀ v c p, v.stopped p = true → lay v c p = p
  goes : ∀ c old, Goes m low (obj c old) fun v p _ q => q = lay v c p

theorem GoesObjects.readClass (hobj : GoesObjects m low obj lay) (c : C) (old : Val) :
    Goes m low (readClass obj c old) fun v p _ q => q = lay v c p := by
  refine (hobj.goes c old).unlessStopped.mono fun v p a q h => ?_
  split at h
  · rename_i hstop
    rw [hobj.stops v c p hstop]
    exact h.2
  · exact h

theorem GoesObjects.readElem (hobj : GoesObjects m low obj lay) (e : Elem C) :
    Goes m low (readElem cls obj e) fun v p _ q => q = v.elem lay e p := by
  cases e with
  | literal size => exact Goes.map ((goes_literal _ _).mono fun _ _ _ _ h => h.1)
  | object c => exact hobj.readClass c _

theorem GoesObjects.readPointer (hobj : GoesObjects m low obj lay) (init : List UInt8) (c : C) :
    Goes m low (readPointer cls obj init c) fun v p _ q => q = v.pointer lay init c p := by
  have hobject (notNULL : List UInt8) : Goes m low (if notNULL ≠ [0] then
      do return some (← obj c (cls.fresh c)) else return none) fun v p _ q =>
        q = if notNULL ≠ [0] then lay v c p else p := by
    by_cases hnull : notNULL = [0]
    · rw [if_neg (not_not.mpr hnull)]
      refine (goes_pure none).mono fun v p a q h => ?_
      rw [if_neg (not_not.mpr hnull)]
      exact h.2
    · rw [if_pos hnull]
      refine (Goes.map (hobj.goes c _)).mono fun v p a q h => ?_
      rw [if_pos hnull]
      exact h
  refine ((goes_literal init 1).bind hobject).mono ?_
  rintro v p a q ⟨notNULL, mid, ⟨rfl, hold, hnew⟩, rfl⟩
  unfold View.pointer
  cases hstop : v.stopped p with
  | true => rw [hold hstop]; rfl
  | false => rw [hnew hstop]; rfl

theorem GoesObjects.readField (hobj : GoesObjects m low obj lay) (f : Field C) (old : Val) :
    Goes m low (readField cls obj f old) fun v p _ q => q = v.field cls lay f p := by
  -- the two halves of an entry are read one behind the other
  have hpair {β γ δ : Type} {r : ReadM β} {r' : ReadM γ} {g : β → γ → δ} {l l' : View → ℕ → ℕ}
      (hr : Goes m low r fun v p _ q => q = l v p) (hr' : Goes m low r' fun v p _ q => q = l' v p) :
      Goes m low (do
        let b ← r
        let c ← r'
        return g b c) fun v p _ q => q = (l' v ∘ l v) p := by
    refine (hr.bind fun b => hr'.map).mono ?_
    rintro v p a q ⟨b, mid, rfl, rfl⟩
    rfl
  cases f with
  | literal size => exact Goes.map (goes_tagged _ _)
  | string => exact Goes.map (goes_string _)
  | wstring => exact Goes.map (goes_wstring _)
  | chars maxLen => exact Goes.map (goes_chars _ _)
  | object c => exact hobj.readClass c old
  | vectorBool => exact Goes.map (goes_container fun _ => Goes.map (goes_tagged _ _))
  | vector e => exact Goes.map (goes_container fun _ => Goes.map (hobj.readElem e))
  | vectorPtr c => exact Goes.map (goes_container fun _ => Goes.map (hobj.readPointer _ c))
  | list e => exact Goes.map (goes_container fun _ => Goes.map (hobj.readElem e))
  | listPtr c => exact Goes.map (goes_container fun _ => Goes.map (hobj.readPointer _ c))
  | set e less => exact Goes.map (goes_container fun _ => Goes.map (hobj.readElem e))
  | setPtr c same => exact Goes.map (goes_container fun _ => Goes.map (hobj.readPointer _ c))
  | map k e less =>
    exact Goes.map (goes_container fun _ => hpair (hobj.readElem k) (hobj.readElem e))
  | mapPtr k c less =>
    exact Goes.map (goes_container fun _ => hpair (hobj.readElem k) (hobj.readPointer _ c))

theorem GoesObjects.readMembers (hobj : GoesObjects m low obj lay) (fs : List (Field C))
    (olds : List Val) :
    Goes m low (readMembers cls obj fs olds) fun v p _ q => q = v.members cls lay fs p := by
  induction fs generalizing olds with
  | nil => exact (goes_pure []).mono fun _ _ _ _ h => h.2
  | cons f fs ih =>
    refine ((hobj.readField f _).bind fun v => (ih olds.tail).map).mono ?_
    rintro v p a q ⟨_, mid, rfl, rfl⟩
    rfl

end Objects

section User

variable {α : Type} {m start size : ℕ} {s t : ReadState} {old a b : α} {members : ReadM α}
  {lay : View → ℕ → ℕ}

theorem le_skipEnd (p : ℕ) : p ≤ View.skipEnd start size p := by
  unfold View.skipEnd
  split <;> omega

theorem target_le_skipEnd {p : ℕ} (h : start ≤ p) : start + size ≤ View.skipEnd start size p := by
  unfold View.skipEnd
  split <;> omega

theorem run_skipExtra_of_le (hg : s.is.good = true) (hstart : start ≤ s.is.pos)
    (hle : View.skipEnd start size s.is.pos ≤ s.is.buf.length) :
    (skipExtra start size).run s =
      some ((), s.advance (View.skipEnd start size s.is.pos - s.is.pos)) := by
  have hrcvd : (((s.is.pos : ℤ) - start) % 65536).toNat = (s.is.pos - start) % 65536 := by
    omega
  unfold View.skipEnd at hle ⊢
  unfold skipExtra
  simp only [goodR, StateT.run_bind, StateT.run_get, StateT.run_pure, Option.pure_def,
    Option.bind_eq_bind, Option.bind_some, hg, if_true, run_tellg hg, hrcvd]
  split at hle
  · rename_i hlt
    have hrest : size - (s.is.pos - start) % 65536 ≤ s.is.rest.length := by
      rw [IStream.length_rest]
      omega
    rw [if_pos hlt, if_pos hlt, run_seek, IStream.seekgCur_of_le hg hrest, Nat.add_sub_cancel_left]
    rfl
  · rename_i hlt
    rw [if_neg hlt, if_neg hlt, Nat.sub_self]
    simp [ReadState.advance]

/-- The end of the object is not there. -/
theorem fails_skipExtra (hg : s.is.good = true) (hstart : start ≤ s.is.pos)
    (hlt : s.is.buf.length < View.skipEnd start size s.is.pos) :
    Fails (skipExtra start size) s := by
  have hrcvd : (((s.is.pos : ℤ) - start) % 65536).toNat = (s.is.pos - start) % 65536 := by
    omega
  have hpos := s.is.pos_le
  unfold View.skipEnd at hlt
  split at hlt
  · rename_i hskip
    refine ⟨(), { s with is := { s.is with eofbit := false, failbit := true } }, ?_, rfl, rfl⟩
    have hout : ¬(0 ≤ (s.is.pos : ℤ) + (size - (s.is.pos - start) % 65536 : ℕ) ∧
        (s.is.pos : ℤ) + (size - (s.is.pos - start) % 65536 : ℕ) ≤ s.is.buf.length) := by
      omega
    have hfail := (IStream.good_iff.mp hg).2
    unfold skipExtra
    simp only [goodR, StateT.run_bind, StateT.run_get, StateT.run_pure, Option.pure_def,
      Option.bind_eq_bind, Option.bind_some, hg, if_true, run_tellg hg, hrcvd, hskip, run_seek,
      IStream.seekgCur, IStream.seekg, hfail, Bool.false_eq_true, if_false, hout, dite_false]
  · omega

theorem fails_skipExtra_of_fail (hf : s.is.failbit = true) {startPos : ℤ} :
    Fails (skipExtra startPos size) s := by
  have hbad : s.is.good = false := by
    simp [IStream.good, hf]
  exact ⟨(), s, by simp [skipExtra, goodR, hbad], hf, rfl⟩

theorem run_checkBounds_of_not {targetStopPos : ℤ} (hg : s.is.good = true)
    (h : ¬(targetStopPos ≤ s.is.buf.length ∧ ∀ p ∈ s.stopParsePos.head?, targetStopPos ≤ p)) :
    (checkBounds targetStopPos).run s =
      some (false, ⟨s.is.setFail, s.stopParsePos, .invalidInput⟩) := by
  have hlast : tellg.run { s with is := s.is.seekgEnd } =
      some ((s.is.buf.length : ℤ), { s with is := s.is.seekgEnd }) := by
    show some ((s.is.seekgEnd.tellg).1, { s with is := (s.is.seekgEnd.tellg).2 }) = _
    rw [IStream.tellg_seekgEnd hg]
  unfold checkBounds
  simp only [StateT.run_bind, run_tellg hg, Option.bind_eq_bind, Option.bind_some, run_seek, hlast,
    IStream.seekg_back hg]
  by_cases hend : (s.is.buf.length : ℤ) < targetStopPos
  · simp only [if_pos hend]
    rfl
  · cases hstack : s.stopParsePos with
    | nil => exact absurd ⟨not_lt.mp hend, by simp [hstack]⟩ h
    | cons p stack =>
      have hp : p < targetStopPos := by
        by_contra hp
        exact h ⟨not_lt.mp hend, by simpa [hstack] using hp⟩
      simp only [if_neg hend, StateT.run_bind, StateT.run_get, Option.pure_def,
        Option.bind_eq_bind, Option.bind_some, if_pos hp]
      rw [← hstack]
      rfl

/-- `read(is, I*)` behind the size field. -/
def userTail (old : α) (members : ReadM α) (startPos : ℤ) (size : ℕ) : ReadM α := do
  if ← checkBounds (startPos + size) then
    pushStopParsePos (startPos + size)
    let t ← members
    popStopParsePos
    skipExtra startPos size
    return t
  else
    return old

/-- Once the members are read, it is the skipping that decides. -/
theorem run_userTail {startPos : ℤ}
    (hbounds : (checkBounds (startPos + size)).run s = some (true, s))
    (hslot : s.stopParsePos.length < maxParseStackDepth)
    (hm : members.run (s.push (startPos + size)) = some (b, t))
    (hstack : t.stopParsePos = (startPos + size) :: s.stopParsePos) :
    (userTail old members startPos size).run s =
      ((skipExtra startPos size).run { t with stopParsePos := s.stopParsePos }).bind
        fun p => some (b, p.2) := by
  unfold userTail
  simp only [StateT.run_bind, hbounds, Option.bind_eq_bind, Option.bind_some, if_true,
    run_pushStopParsePos hslot, hm, run_popStopParsePos hstack, StateT.run_pure, Option.pure_def]

theorem run_tellg_of_fail (hf : s.is.failbit = true) :
    tellg.run s = some (-1, { s with is := s.is.setFail }) := by
  have htell : s.is.tellg = (-1, s.is.setFail) := by
    simp [IStream.tellg, IStream.good, hf]
  show some ((s.is.tellg).1, { s with is := (s.is.tellg).2 }) = _
  rw [htell]

theorem fails_userTail (hf : s.is.failbit = true) :
    Fails (userTail old members start size) s := by
  have hend : (s.is.setFail.seekgEnd).failbit = true := by
    simp [IStream.seekgEnd, IStream.seekg, IStream.setFail]
  have hlast : tellg.run { s with is := s.is.setFail.seekgEnd } =
      some (-1, { s with is := s.is.setFail.seekgEnd.setFail }) := run_tellg_of_fail hend
  have hneg : (-1 : ℤ) < start + size := by
    omega
  refine ⟨old, ⟨(s.is.setFail.seekgEnd.setFail.seekg (-1)).setFail, s.stopParsePos, .invalidInput⟩,
    ?_, rfl, rfl⟩
  unfold userTail checkBounds
  simp only [StateT.run_bind, run_tellg_of_fail hf, Option.bind_eq_bind, Option.bind_some,
    run_seek, hlast, if_pos hneg]
  rfl

/-- The object ends neither behind the stream nor behind the object around it. -/
def ReadState.Holds (s : ReadState) (targetStopPos : ℕ) : Prop :=
  targetStopPos ≤ s.is.buf.length ∧ ∀ p ∈ s.stopParsePos.head?, (targetStopPos : ℤ) ≤ p

theorem fails_userTail_of_not (hg : s.is.good = true) (hb : ¬s.Holds (start + size)) :
    Fails (userTail old members start size) s := by
  refine ⟨old, ⟨s.is.setFail, s.stopParsePos, .invalidInput⟩, ?_, rfl, rfl⟩
  unfold userTail
  rw [StateT.run_bind, run_checkBounds_of_not hg fun h => hb ⟨by omega, fun p hp => ?_⟩]
  · rfl
  · have := h.2 p hp
    omega

theorem ReadState.Holds.bounds (hg : s.is.good = true) (hb : s.Holds (start + size)) :
    (checkBounds ((start : ℤ) + size)).run s = some (true, s) :=
  run_checkBounds hg (by exact_mod_cast hb.1) fun p hp => by exact_mod_cast hb.2 p hp

/-- A tail that returns has found room for its stop position. -/
theorem members_of_userTail (hg : s.is.good = true) (hb : s.Holds (start + size))
    (hrun : (userTail old members start size).run s = some (a, t)) :
    s.stopParsePos.length < maxParseStackDepth ∧
      ∃ b t', members.run (s.push (start + size)) = some (b, t') := by
  unfold userTail at hrun
  rw [StateT.run_bind, hb.bounds hg] at hrun
  by_cases hslot : s.stopParsePos.length < maxParseStackDepth
  · refine ⟨hslot, ?_⟩
    simp only [Option.bind_eq_bind, Option.bind_some, if_true, StateT.run_bind,
      run_pushStopParsePos hslot] at hrun
    obtain ⟨⟨b, t'⟩, hm, -⟩ := Option.bind_eq_some_iff.mp hrun
    exact ⟨b, t', hm⟩
  · have hpush : (pushStopParsePos ((start : ℤ) + size)).run s = none := by
      unfold pushStopParsePos
      rw [StateT.run_bind, StateT.run_get]
      simp [hslot, fault]
    simp only [Option.bind_eq_bind, Option.bind_some, if_true, StateT.run_bind, hpush,
      Option.bind_none, reduceCtorEq] at hrun

section Members

variable (hg : s.is.good = true) (hb : s.Holds (start + size))
  (hslot : s.stopParsePos.length < maxParseStackDepth)

include hg hb hslot

theorem fails_userTail_of_members (hm : Fails members (s.push (start + size))) :
    Fails (userTail old members start size) s := by
  obtain ⟨b, t, hrun, hf, hstack⟩ := hm
  have hskip : Fails (skipExtra start size) ({ t with stopParsePos := s.stopParsePos }) :=
    fails_skipExtra_of_fail (s := { t with stopParsePos := s.stopParsePos }) hf
  obtain ⟨u, t', hrun', hf', hstack'⟩ := hskip
  refine ⟨b, t', ?_, hf', hstack'⟩
  rw [run_userTail (hb.bounds hg) hslot hrun hstack, hrun']
  rfl

/-- The members end `i` bytes on, and the object is there up to its end. -/
theorem run_userTail_of_members {i : ℕ} (hstart : start ≤ s.is.pos)
    (hm : members.run (s.push (start + size)) = some (b, (s.push (start + size)).advance i))
    (hi : s.is.pos + i ≤ s.is.buf.length)
    (hle : View.skipEnd start size (s.is.pos + i) ≤ s.is.buf.length) :
    (userTail old members start size).run s =
      some (b, s.advance (View.skipEnd start size (s.is.pos + i) - s.is.pos)) := by
  have hpos : (s.advance i).is.pos = s.is.pos + i := ReadState.pos_advance_of_le hi
  have hskip : (skipExtra start size).run (s.advance i) = some ((), (s.advance i).advance
      (View.skipEnd start size (s.is.pos + i) - (s.is.pos + i))) := by
    rw [← hpos]
    exact run_skipExtra_of_le hg (by omega) (hpos ▸ hle)
  have hend : s.is.pos + i ≤ View.skipEnd start size (s.is.pos + i) := le_skipEnd _
  have hsum : i + (View.skipEnd start size (s.is.pos + i) - (s.is.pos + i)) =
      View.skipEnd start size (s.is.pos + i) - s.is.pos := by
    omega
  rw [run_userTail (hb.bounds hg) hslot hm rfl]
  show ((skipExtra start size).run (s.advance i)).bind _ = _
  rw [hskip, ReadState.advance_advance, hsum]
  rfl

theorem fails_userTail_of_end {i : ℕ} (hstart : start ≤ s.is.pos)
    (hm : members.run (s.push (start + size)) = some (b, (s.push (start + size)).advance i))
    (hi : s.is.pos + i ≤ s.is.buf.length)
    (hlt : s.is.buf.length < View.skipEnd start size (s.is.pos + i)) :
    Fails (userTail old members start size) s := by
  have hpos : (s.advance i).is.pos = s.is.pos + i := ReadState.pos_advance_of_le hi
  obtain ⟨u, t', hrun, hf, hstack⟩ : Fails (skipExtra start size) (s.advance i) :=
    fails_skipExtra hg (by omega) (hpos ▸ hlt)
  refine ⟨b, t', ?_, hf, hstack⟩
  rw [run_userTail (hb.bounds hg) hslot hm rfl]
  show ((skipExtra start size).run (s.advance i)).bind _ = _
  rw [hrun]
  rfl

end Members

/-- What is done with the bytes of an object, when its size field was read. -/
theorem runs_userTail (hm : Goes m start members fun v p _ q => q = lay v p)
    (hdeep : s.Deep (m + 1)) (hg : s.is.good = true) (hstart : start ≤ s.is.pos)
    (hrun : (userTail old members start size).run s = some (a, t)) :
    (t.is.failbit = true ∧ t.stopParsePos = s.stopParsePos) ∨
      ∃ k, s.is.pos + k ≤ s.is.buf.length ∧ t = s.advance k ∧
        s.is.pos + k = View.skipEnd start size
          (lay { s.view with stop := some (start + size : ℕ) } s.is.pos) ∧
        Local (userTail old members start size) s a k := by
  -- a failing run of the tail is this one
  have hfailed (h : Fails (userTail old members start size) s) :
      t.is.failbit = true ∧ t.stopParsePos = s.stopParsePos := by
    obtain ⟨a', t', hrun', hf', hstack'⟩ := h
    obtain ⟨-, rfl⟩ := Prod.mk.inj (Option.some.inj (hrun'.symm.trans hrun))
    exact ⟨hf', hstack'⟩
  by_cases hb : s.Holds (start + size)
  swap
  · exact Or.inl (hfailed (fails_userTail_of_not hg hb))
  obtain ⟨hslot, b, t₂, hmrun⟩ := members_of_userTail hg hb hrun
  have hpushed : (s.push (start + size)).Deep m := by
    have := hdeep.2
    refine ⟨hslot, ?_⟩
    show maxParseStackDepth < s.stopParsePos.length + 1 + m
    omega
  have hview : (s.push (start + size)).view =
      { s.view with stop := some (start + size : ℕ) } := rfl
  rcases hm.runs _ b t₂ hpushed hg hstart hmrun with ⟨hf, hstack⟩ | ⟨i, hi, rfl, hlay, hlocal⟩
  · exact Or.inl (hfailed (fails_userTail_of_members hg hb hslot ⟨b, t₂, hmrun, hf, hstack⟩))
  have hi' : s.is.pos + i ≤ s.is.buf.length := hi
  have hlay' : s.is.pos + i =
      lay { s.view with stop := some (start + size : ℕ) } s.is.pos := hlay
  have hend : start + size ≤ View.skipEnd start size (s.is.pos + i) :=
    target_le_skipEnd (by omega)
  have hge : s.is.pos + i ≤ View.skipEnd start size (s.is.pos + i) := le_skipEnd _
  rcases Nat.lt_or_ge s.is.buf.length (View.skipEnd start size (s.is.pos + i)) with hlt | hle
  · exact Or.inl (hfailed (fails_userTail_of_end hg hb hslot hstart hmrun hi' hlt))
  have hdone : (userTail old members start size).run s = some (b, _) :=
    run_userTail_of_members hg hb hslot hstart hmrun hi' hle
  obtain ⟨rfl, rfl⟩ := Prod.mk.inj (Option.some.inj (hdone.symm.trans hrun))
  have hk : s.is.pos + (View.skipEnd start size (s.is.pos + i) - s.is.pos) =
      View.skipEnd start size (s.is.pos + i) := by
    omega
  refine Or.inr ⟨View.skipEnd start size (s.is.pos + i) - s.is.pos, hk.le.trans hle, rfl, ?_,
    fun e s' hagree => ?_⟩
  · rw [hk, hlay']
  rw [hk]
  have hpos := hagree.pos
  have hle' := hagree.le'
  have hagree' : (s.push (start + size)).Agrees e (s'.push (start + size)) :=
    ⟨hagree.good, hagree.pos, congrArg (List.cons _) hagree.stack, hagree.le, hagree.le',
      hagree.take⟩
  have hslot' : s'.stopParsePos.length < maxParseStackDepth := hagree.stack ▸ hslot
  have hstart' : start ≤ s'.is.pos := hpos ▸ hstart
  obtain ⟨hsame, hcut⟩ := hlocal e _ hagree'
  -- the bounds hold there too, if the object is not cut off
  have hb' (h : start + size ≤ e) : s'.Holds (start + size) :=
    ⟨h.trans hle', hagree.stack ▸ hb.2⟩
  constructor
  · intro hsize
    have hm' := hsame (show s.is.pos + i ≤ e by omega)
    have hdone' : (userTail old members start size).run s' = some (b, _) :=
      run_userTail_of_members hagree.good (hb' (by omega)) hslot' hstart' hm' (by omega)
        (by rw [hpos]; omega)
    rw [hpos] at hdone'
    exact hdone'
  · intro hlast hlt
    rcases Nat.lt_or_ge e (start + size) with hcutoff | hin
    · refine fails_userTail_of_not hagree.good fun h => ?_
      have := h.1
      omega
    · rcases Nat.lt_or_ge e (s.is.pos + i) with hlt' | hge'
      · exact fails_userTail_of_members hagree.good (hb' hin) hslot' (hcut hlast hlt')
      · exact fails_userTail_of_end hagree.good (hb' hin) hslot' hstart' (hsame hge') (by omega)
          (by rw [hpos]; omega)

theorem goes_userTail (hm : Goes m start members fun v p _ q => q = lay v p) :
    Goes (m + 1) start (userTail old members start size) fun v p _ q =>
      q = View.skipEnd start size (lay { v with stop := some (start + size : ℕ) } p) :=
  ⟨fun _ _ hf => fails_userTail hf, fun _ _ _ hdeep hg hstart hrun =>
    runs_userTail hm hdeep hg hstart hrun⟩

/-- The end of an object whose size field is at `p`. -/
def View.userEnd (lay : View → ℕ → ℕ) (v : View) (p : ℕ) : ℕ :=
  skipEnd p (v.sizeAt p) (lay { v with stop := some (p + v.sizeAt p : ℕ) } (v.skip 2 p))

/-- `read(is, I*)` behind the tag. -/
theorem goes_userBody (hm : ∀ low, Goes m low members fun v p _ q => q = lay v p) {low : ℕ} :
    Goes (m + 1) low (do
      let startPos ← tellg
      if startPos = -1 then
        failRead .nonSeekableStream
        return old
      let size ← readSize
      userTail old members startPos size) fun v p _ q => q = v.userEnd lay p := by
  -- on a stream that is good `tellg` does not fail
  have hgood (s : ReadState) (hg : s.is.good = true) : (do
      let startPos ← tellg
      if startPos = -1 then
        failRead .nonSeekableStream
        return old
      let size ← readSize
      userTail old members startPos size : ReadM α).run s =
        (readSize >>= userTail old members s.is.pos).run s := by
    have hne : ((s.is.pos : ℕ) : ℤ) ≠ -1 := by
      omega
    rw [StateT.run_bind, run_tellg hg]
    simp only [Option.bind_eq_bind, Option.bind_some, hne, if_false]
  have hsize (s : ReadState) : Goes (m + 1) s.is.pos (readSize >>= userTail old members s.is.pos)
      fun v p _ q => ∃ size mid, (size = v.sizeAt p ∧ mid = v.skip 2 p) ∧
        q = View.skipEnd s.is.pos size
          (lay { v with stop := some (s.is.pos + size : ℕ) } mid) :=
    goes_size.bind fun size => goes_userTail (hm _)
  constructor
  · intro s _ hf
    refine ⟨old, ⟨s.is.setFail.setFail, s.stopParsePos, .nonSeekableStream⟩, ?_, rfl, rfl⟩
    rw [StateT.run_bind, run_tellg_of_fail hf]
    rfl
  · intro s a t hdeep hg _ hrun
    rw [hgood s hg] at hrun
    refine ((hsize s).runs s a t hdeep hg (Nat.le_refl _) hrun).imp_right ?_
    rintro ⟨k, hk, rfl, ⟨size, mid, ⟨rfl, rfl⟩, hq⟩, hlocal⟩
    refine ⟨k, hk, rfl, hq, fun e s' hagree => ?_⟩
    rw [Fails, hgood s' hagree.good, hagree.pos]
    exact hlocal e s' hagree

theorem goes_user (hm : ∀ low, Goes m low members fun v p _ q => q = lay v p) {low : ℕ} :
    Goes (m + 1) low (readUser old members) fun v p _ q => q = v.tagged (v.userEnd lay) p :=
  (goes_userBody hm).tagged rfl

end User

/-- By induction on how deep objects may still nest. -/
theorem goes_object {C : Type u} (cls : Classes C) (m low : ℕ) :
    GoesObjects m low (readObject cls m) (View.object cls m) := by
  induction m generalizing low with
  | zero =>
    refine ⟨fun _ _ _ _ => rfl, fun c old => ?_⟩
    have hno (s : ReadState) : ¬s.Deep 0 := fun h => absurd h.2 (not_lt.mpr h.1)
    exact ⟨fun s hdeep => absurd hdeep (hno s), fun s _ _ hdeep => absurd hdeep (hno s)⟩
  | succ m ih =>
    constructor
    · intro v c p hstop
      simp [View.object, View.tagged, hstop]
    · intro c old
      exact goes_user fun low => ((ih low).readMembers (cls.fields c) old.members).map

/-! ### Reading never goes back -/

namespace View

variable {v : View} {p : ℕ}

theorem le_skip (k p : ℕ) : p ≤ v.skip k p := by
  unfold skip
  split <;> omega

theorem le_tagged {next : ℕ → ℕ} (h : ∀ p, p ≤ next p) (p : ℕ) : p ≤ v.tagged next p := by
  unfold tagged
  split
  · exact Nat.le_refl p
  · exact (Nat.le_succ p).trans (h (p + 1))

theorem le_counted {next : ℕ → ℕ → ℕ} (h : ∀ n p, p ≤ next n p) (p : ℕ) :
    p ≤ v.counted next p :=
  le_tagged (fun p => (le_skip 2 p).trans (h _ _)) p

theorem le_repeat {next : ℕ → ℕ} (h : ∀ p, p ≤ next p) (n p : ℕ) : p ≤ next^[n] p :=
  Function.id_le_iterate_of_id_le h n p

variable {C : Type u} {cls : Classes C} {obj : View → C → ℕ → ℕ}

theorem le_elem (hobj : ∀ v c p, p ≤ obj v c p) (e : Elem C) (p : ℕ) : p ≤ v.elem obj e p := by
  cases e with
  | literal size => exact le_skip size p
  | object c => exact hobj v c p

theorem le_pointer (hobj : ∀ v c p, p ≤ obj v c p) (init : List UInt8) (c : C) (p : ℕ) :
    p ≤ v.pointer obj init c p := by
  have hskip : p ≤ v.skip 1 p := le_skip 1 p
  have hobject : v.skip 1 p ≤ obj v c (v.skip 1 p) := hobj v c _
  unfold pointer
  simp only
  split_ifs <;> omega

theorem le_field (hobj : ∀ v c p, p ≤ obj v c p) (f : Field C) (p : ℕ) :
    p ≤ v.field cls obj f p := by
  have helem (e : Elem C) (n p : ℕ) : p ≤ (v.elem obj e)^[n] p := le_repeat (le_elem hobj e) n p
  have hptr (init : List UInt8) (c : C) (n p : ℕ) : p ≤ (v.pointer obj init c)^[n] p :=
    le_repeat (le_pointer hobj init c) n p
  cases f with
  | literal size => exact le_tagged (le_skip size) p
  | string => exact le_counted le_skip p
  | wstring => exact le_counted (le_repeat (le_skip 2)) p
  | chars maxLen => exact le_counted le_skip p
  | object c => exact hobj v c p
  | vectorBool => exact le_counted (le_repeat (le_tagged (le_skip 1))) p
  | vector e => exact le_counted (helem e) p
  | vectorPtr c => exact le_counted (hptr _ c) p
  | list e => exact le_counted (helem e) p
  | listPtr c => exact le_counted (hptr _ c) p
  | set e less => exact le_counted (helem e) p
  | setPtr c same => exact le_counted (hptr _ c) p
  | map k e less =>
    refine le_counted (le_repeat fun p => ?_) p
    exact (le_elem hobj k p).trans (le_elem hobj e _)
  | mapPtr k c less =>
    refine le_counted (le_repeat fun p => ?_) p
    exact (le_elem hobj k p).trans (le_pointer hobj _ c _)

theorem le_members (hobj : ∀ v c p, p ≤ obj v c p) (fs : List (Field C)) (p : ℕ) :
    p ≤ v.members cls obj fs p := by
  induction fs generalizing p with
  | nil => exact Nat.le_refl p
  | cons f fs ih => exact (le_field hobj f p).trans (ih _)

theorem le_body (hobj : ∀ v c p, p ≤ obj v c p) (c : C) (start : ℕ) :
    start ≤ v.body cls obj c start :=
  (le_skip 2 start).trans (le_members hobj (cls.fields c) _)

theorem le_object (n : ℕ) (v : View) (c : C) (p : ℕ) : p ≤ View.object cls n v c p := by
  induction n generalizing v c p with
  | zero => exact Nat.le_refl p
  | succ n ih =>
    exact le_tagged (fun start => (le_body ih c start).trans (le_skipEnd _)) p

/-- An object that holds its members ends where it says. -/
theorem skipEnd_of_le {start size : ℕ} (hsize : size < 65536) (hstart : start ≤ p)
    (hle : p ≤ start + size) : skipEnd start size p = start + size := by
  unfold skipEnd
  split <;> omega

theorem sizeAt_lt (v : View) (p : ℕ) : v.sizeAt p < 65536 := by
  unfold sizeAt
  split
  · decide
  · unfold ofU16
    split
    · rename_i lo hi _
      have := lo.toNat_lt
      have := hi.toNat_lt
      omega
    · decide

end View

/-! ## The declared size -/

/-- Where the object ahead ends by its size field, which is behind the tag. -/
def ReadState.declaredEnd (s : ReadState) : ℕ := s.is.pos + 1 + s.view.sizeAt (s.is.pos + 1)

/-- A `read(is, I*)` from `s` to `t` did not leave the object: it ended where the
object does, no byte from there on made a difference, and the stack is as it
was. Where reading had stopped, no object was read. -/
def StaysInside {C : Type u} (cls : Classes C) (c : C) (old a : Val) (s t : ReadState) : Prop :=
  t.stopParsePos = s.stopParsePos ∧
    (s.view.stopped s.is.pos = false → t.is.pos = s.declaredEnd ∧
      ∀ s', s.Agrees s.declaredEnd s' →
        ∃ t', (readObject cls (maxParseStackDepth + 1) c old).run s' = some (a, t') ∧
          t'.is.good = true ∧ t'.is.pos = s.declaredEnd)

/-- The values that begin inside the object end inside it. -/
def MembersFit {C : Type u} (cls : Classes C) (c : C) (s : ReadState) : Prop :=
  s.view.stopped s.is.pos = false →
    s.view.body cls (View.object cls maxParseStackDepth) c (s.is.pos + 1) ≤ s.declaredEnd

/-- Only a good stream is read to a good end. -/
theorem good_of_readObject {C : Type u} {cls : Classes C} {n : ℕ} {c : C} {old a : Val}
    {s t : ReadState} (hstack : s.Deep (n + 1))
    (hrun : (readObject cls (n + 1) c old).run s = some (a, t)) (hgood : t.is.good = true) :
    s.is.good = true := by
  by_contra hbad
  cases hf : s.is.failbit with
  | true =>
    obtain ⟨a', t', hrun', hf', -⟩ := ((goes_object cls (n + 1) 0).goes c old).fails s hstack hf
    obtain ⟨-, rfl⟩ := Prod.mk.inj (Option.some.inj (hrun'.symm.trans hrun))
    simp [IStream.good, hf'] at hgood
  | false =>
    have heof : s.is.eofbit = true := by
      simpa [IStream.good, hf] using hbad
    have hstop : checkStopParse.run s = some (true, { s with lastError := .endOfFile }) := by
      simp [checkStopParse, heof, raiseError]
    have hrun' : (readObject cls (n + 1) c old).run s =
        some (old, { s with lastError := .endOfFile }) := by
      unfold readObject readUser
      rw [StateT.run_bind, hstop]
      rfl
    obtain ⟨-, rfl⟩ := Prod.mk.inj (Option.some.inj (hrun'.symm.trans hrun))
    simp [IStream.good, heof] at hgood

/-- A `read(is, I*)` that leaves the stream good has stayed inside the declared
object just when the values that begin inside the object end inside it. -/
theorem staysInside_iff {C : Type u} (cls : Classes C) {c : C} {old a : Val} {s t : ReadState}
    (hstack : s.stopParsePos.length ≤ maxParseStackDepth)
    (hrun : (readObject cls (maxParseStackDepth + 1) c old).run s = some (a, t))
    (hgood : t.is.good = true) : StaysInside cls c old a s t ↔ MembersFit cls c s := by
  have hdeep : s.Deep (maxParseStackDepth + 1) := ⟨hstack, by omega⟩
  have hg := good_of_readObject hdeep hrun hgood
  obtain ⟨hf, -⟩ | ⟨k, hk, rfl, hend, hlocal⟩ :=
    ((goes_object cls (maxParseStackDepth + 1) 0).goes c old).runs s a t hdeep hg
      (Nat.zero_le _) hrun
  · simp [IStream.good, hf] at hgood
  have hpos : (s.advance k).is.pos = s.is.pos + k := ReadState.pos_advance_of_le hk
  -- where the read ended, if an object was there
  have hlast (hstop : s.view.stopped s.is.pos = false) : s.is.pos + k =
      View.skipEnd (s.is.pos + 1) (s.view.sizeAt (s.is.pos + 1))
        (s.view.body cls (View.object cls maxParseStackDepth) c (s.is.pos + 1)) := by
    rw [hend, View.object, View.tagged, hstop, if_neg Bool.false_ne_true]
  constructor
  · rintro ⟨-, hinside⟩ hstop
    obtain ⟨heq, -⟩ := hinside hstop
    rw [hpos, hlast hstop] at heq
    exact (le_skipEnd _).trans heq.le
  · intro hfit
    refine ⟨rfl, fun hstop => ?_⟩
    have heq : s.is.pos + k = s.declaredEnd := by
      rw [hlast hstop]
      exact View.skipEnd_of_le (View.sizeAt_lt _ _) (View.le_body (View.le_object _) c _)
        (hfit hstop)
    refine ⟨hpos.trans heq, fun s' hagree => ?_⟩
    obtain ⟨hsame, -⟩ := hlocal _ s' hagree
    refine ⟨_, hsame heq.le, hagree.good, ?_⟩
    have hk' : s'.is.pos + k ≤ s'.is.buf.length := by
      have := hagree.pos
      have := hagree.le'
      omega
    rw [ReadState.pos_advance_of_le hk', hagree.pos, heq]

/-- A class with one member of two bytes. -/
def sample : Classes Unit where
  fields _ := [.literal 2]
  fresh _ := .object [.literal [0, 0]]
  indeterminate size := List.replicate size 0

def sampleStream (bytes : List UInt8) : ReadState := ⟨IStream.open_ bytes, [], .none⟩

theorem staysInside_iff_sample : ∃ a t,
    (readObject sample (maxParseStackDepth + 1) () (sample.fresh ())).run
        (sampleStream [31, 5, 0, 1, 7, 8, 42]) = some (a, t) ∧ t.is.good = true ∧
      (StaysInside sample () (sample.fresh ()) a (sampleStream [31, 5, 0, 1, 7, 8, 42]) t ↔
        MembersFit sample () (sampleStream [31, 5, 0, 1, 7, 8, 42])) ∧
      MembersFit sample () (sampleStream [31, 5, 0, 1, 7, 8, 42]) := by
  have hany : ((readObject sample (maxParseStackDepth + 1) () (sample.fresh ())).run
      (sampleStream [31, 5, 0, 1, 7, 8, 42])).any (fun r => r.2.is.good) = true := by
    decide +kernel
  obtain ⟨⟨a, t⟩, hrun, hgood⟩ := (Option.any_eq_true ..).mp hany
  refine ⟨a, t, hrun, hgood, ?_, fun _ => by decide +kernel⟩
  exact staysInside_iff sample (by decide) hrun hgood

/-- The size says that the object ends inside its member: the read takes the
member whole, is good, and stands behind the first byte of what follows. -/
theorem not_staysInside_sample : ∃ a t,
    (readObject sample (maxParseStackDepth + 1) () (sample.fresh ())).run
        (sampleStream [31, 4, 0, 1, 7, 8, 42]) = some (a, t) ∧ t.is.good = true ∧
      (sampleStream [31, 4, 0, 1, 7, 8, 42]).declaredEnd = 5 ∧ t.is.pos = 6 ∧
      ¬StaysInside sample () (sample.fresh ()) a (sampleStream [31, 4, 0, 1, 7, 8, 42]) t := by
  have hany : ((readObject sample (maxParseStackDepth + 1) () (sample.fresh ())).run
      (sampleStream [31, 4, 0, 1, 7, 8, 42])).any (fun r => r.2.is.good && r.2.is.pos == 6) =
        true := by
    decide +kernel
  obtain ⟨⟨a, t⟩, hrun, hp⟩ := (Option.any_eq_true ..).mp hany
  obtain ⟨hgood, hpos⟩ : t.is.good = true ∧ t.is.pos = 6 := by simpa using hp
  have hend : (sampleStream [31, 4, 0, 1, 7, 8, 42]).declaredEnd = 5 := by decide
  refine ⟨a, t, hrun, hgood, hend, hpos, fun h => ?_⟩
  have hstays := (h.2 (by decide)).1
  rw [hpos, hend] at hstays
  exact absurd hstays (by decide)

end Serialize

end AsyncSqlite
