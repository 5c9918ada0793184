import AsyncSqlite.Remote.EngineControl

/-!
# AsyncSqlite.Remote.EngineLedger — what becomes of the datagrams

`LedgerInv` ties the datagrams that `Receive` has returned to what became of them.
At most one of them is undecided, the last one; while it is, the header and the
stream that the receive thread shares with the network thread are those it came
with. The messages that are still in the queue are that one's or of callers that have
given up, and no two of them are of one datagram.
-/

namespace AsyncSqlite

/-! ## Lists -/

theorem zip_concat_left {α β : Type} {l : List α} {l' : List β} (a : α)
    (h : l'.length ≤ l.length) : (l ++ [a]).zip l' = l.zip l' := by
  induction l generalizing l' with
  | nil =>
    rw [List.length_nil, Nat.le_zero, List.length_eq_zero_iff] at h
    subst h
    rfl
  | cons x l ih =>
    cases l' with
    | nil => rfl
    | cons y l' =>
      rw [List.cons_append, List.zip_cons_cons, List.zip_cons_cons,
        ih (Nat.le_of_succ_le_succ h)]

theorem zip_concat_right {α β : Type} {l : List α} {l' : List β} {a : α} (b : β)
    (hlast : l.getLast? = some a) (h : l.length = l'.length + 1) :
    l.zip (l' ++ [b]) = l.zip l' ++ [(a, b)] := by
  rcases List.getLast?_eq_some_iff.mp hlast with ⟨init, rfl⟩
  rw [List.length_append, List.length_singleton, Nat.add_right_cancel_iff] at h
  rw [zip_concat_left a (Nat.le_of_eq h.symm), List.zip_append h]
  rfl

/-! ## Fates -/

namespace FrameFate

/-- The invocation of an endpoint that comes of it. -/
def delivery (frame : EngineFrame) : FrameFate → Option (ℕ × List UInt8)
  | .invoked endpoint => some (endpoint, frame.payload)
  | _ => none

/-- What a datagram must be like for this to become of it. -/
def Fits (frame : EngineFrame) : FrameFate → Prop
  | .empty => frame.payload = []
  | .exiting | .refused | .expired => frame.payload ≠ []
  | .filtered => frame.payload ≠ [] ∧ frame.header.id = ackRemoteId
  | .unknown | .invoked _ => frame.payload ≠ [] ∧ frame.header.id ≠ ackRemoteId

end FrameFate

/-- The invocations that a list of fates comes to. -/
def delivered (received : List EngineFrame) (fates : List FrameFate) : List (ℕ × List UInt8) :=
  (received.zip fates).filterMap fun x => x.2.delivery x.1

/-! ## The invariant -/

namespace EngineJob

/-- The number of the datagram and its stream. -/
def datagram : EngineJob → Option (ℕ × ℕ)
  | .incoming k stream => some (k, stream)
  | _ => none

end EngineJob

namespace RecvPc

/-- A datagram is in the hands of `RecvThread`. -/
def holds : RecvPc → Bool
  | .got | .passed | .waiting _ => true
  | _ => false

/-- It has been found not to be empty. -/
def isTested : RecvPc → Bool
  | .passed | .waiting _ => true
  | _ => false

end RecvPc

namespace NetworkEngine

/-- The message that was popped and not entered. -/
def hand (s : NetworkEngine) : List EngineJob :=
  match s.network with
  | .taken job => [job]
  | _ => []

/-- The datagrams whose messages have not been entered. -/
def outstanding (s : NetworkEngine) : List (ℕ × ℕ) :=
  (s.hand ++ s.queue).filterMap EngineJob.datagram

/-- The datagrams that nothing has become of yet. -/
def undecided (s : NetworkEngine) : ℕ :=
  match s.recv with
  | .got | .passed => 1
  | .waiting k => if s.handling = some k then 0 else 1
  | _ => 0

/-- `RecvThread` holds the last datagram. -/
def Carries (s : NetworkEngine) : Prop :=
  ∃ stream frame, s.argData = some stream ∧ s.received.getLast? = some frame ∧
    s.header = frame.header ∧ s.streams stream = frame.payload

structure LedgerInv (s : NetworkEngine) : Prop where
  length : s.received.length = s.fates.length + s.undecided
  stream : s.recv = .receive → s.argData.isSome = true
  carries : s.recv.holds = true → s.Carries
  tested : s.recv.isTested = true → s.argBytes ≠ []
  last : ∀ k, s.recv = .waiting k → k + 1 = s.received.length
  outstanding : ∀ x ∈ s.outstanding,
    x.1 < s.fates.length ∨ s.recv = .waiting x.1 ∧ s.argData = some x.2
  nodup : (s.outstanding.map Prod.fst).Nodup
  handling : ∀ k, s.handling = some k → s.recv = .waiting k ∧ k ∉ s.outstanding.map Prod.fst
  invocations : s.invocations = delivered s.received s.fates
  fits : ∀ x ∈ s.received.zip s.fates, x.2.Fits x.1

theorem LedgerInv.initial : LedgerInv initial where
  length := rfl
  stream := by intro h; cases h
  carries := by intro h; cases h
  tested := by intro h; cases h
  last := by intro k h; cases h
  outstanding := by intro x h; cases h
  nodup := List.Pairwise.nil
  handling := by intro k h; cases h
  invocations := rfl
  fits := by intro x h; cases h

variable {s s' : NetworkEngine}

/-- What `RecvThread` has and what has become of the datagrams is the same. -/
structure SameData (s s' : NetworkEngine) : Prop where
  recv : s'.recv = s.recv
  header : s'.header = s.header
  argData : s'.argData = s.argData
  streams : s'.streams = s.streams
  received : s'.received = s.received
  fates : s'.fates = s.fates
  invocations : s'.invocations = s.invocations
  handling : s'.handling = s.handling
  outstanding : s'.outstanding.Sublist s.outstanding

theorem SameData.refl (s : NetworkEngine) : SameData s s :=
  ⟨rfl, rfl, rfl, rfl, rfl, rfl, rfl, rfl, List.Sublist.refl _⟩

theorem LedgerInv.same (h : LedgerInv s) (hsame : SameData s s') : LedgerInv s' where
  length := by
    have hundecided : s'.undecided = s.undecided := by
      unfold undecided
      rw [hsame.recv, hsame.handling]
    rw [hsame.received, hsame.fates, hundecided]
    exact h.length
  stream := by
    intro hrecv
    rw [hsame.recv] at hrecv
    rw [hsame.argData]
    exact h.stream hrecv
  carries := by
    intro hholds
    rw [hsame.recv] at hholds
    rcases h.carries hholds with ⟨stream, frame, hdata, hlast, hheader, hstream⟩
    refine ⟨stream, frame, ?_, ?_, ?_, ?_⟩
    · rw [hsame.argData, hdata]
    · rw [hsame.received, hlast]
    · rw [hsame.header, hheader]
    · rw [hsame.streams, hstream]
  tested := by
    intro htested
    rw [hsame.recv] at htested
    have hbytes : s'.argBytes = s.argBytes := by
      unfold argBytes
      rw [hsame.argData, hsame.streams]
    rw [hbytes]
    exact h.tested htested
  last := by
    intro k hk
    rw [hsame.recv] at hk
    rw [hsame.received]
    exact h.last k hk
  outstanding := by
    intro x hx
    rw [hsame.fates, hsame.recv, hsame.argData]
    exact h.outstanding x (hsame.outstanding.subset hx)
  nodup := h.nodup.sublist (hsame.outstanding.map _)
  handling := by
    intro k hk
    rw [hsame.handling] at hk
    rcases h.handling k hk with ⟨hrecv, hnot⟩
    refine ⟨hsame.recv.trans hrecv, ?_⟩
    intro hmem
    exact hnot ((hsame.outstanding.map _).subset hmem)
  invocations := by
    rw [hsame.invocations, hsame.received, hsame.fates]
    exact h.invocations
  fits := by
    rw [hsame.received, hsame.fates]
    exact h.fits

/-! ## What happens to the datagram in hand -/

theorem undecided_of_not_holds (h : s.recv.holds = false) : s.undecided = 0 := by
  unfold undecided
  cases hrecv : s.recv <;> simp_all [RecvPc.holds]

theorem LedgerInv.not_handling (h : LedgerInv s) (hidle : s.recv.holds = false) :
    s.handling = none := by
  cases hk : s.handling with
  | none => rfl
  | some k =>
    rw [(h.handling k hk).1] at hidle
    cases hidle

/-- A step of `RecvThread` while it has no datagram. -/
theorem LedgerInv.move (h : LedgerInv s) (hidle : s.recv.holds = false)
    (hidle' : s'.recv.holds = false) (hreceived : s'.received = s.received)
    (hfates : s'.fates = s.fates) (hinvocations : s'.invocations = s.invocations)
    (hhandling : s'.handling = s.handling) (houtstanding : s'.outstanding = s.outstanding)
    (hstream : s'.recv = .receive → s'.argData.isSome = true) : LedgerInv s' where
  length := by
    have hlength := h.length
    rw [undecided_of_not_holds hidle] at hlength
    rw [hreceived, hfates, undecided_of_not_holds hidle']
    exact hlength
  stream := hstream
  carries := by
    intro hholds
    rw [hidle'] at hholds
    cases hholds
  tested := by
    intro htested
    cases hrecv : s'.recv <;> simp_all [RecvPc.holds, RecvPc.isTested]
  last := by
    intro k hk
    rw [hk] at hidle'
    cases hidle'
  outstanding := by
    intro x hx
    rw [houtstanding] at hx
    rw [hfates]
    rcases h.outstanding x hx with hlt | ⟨hrecv, -⟩
    · exact Or.inl hlt
    · rw [hrecv] at hidle
      cases hidle
  nodup := by
    rw [houtstanding]
    exact h.nodup
  handling := by
    intro k hk
    rw [hhandling, h.not_handling hidle] at hk
    cases hk
  invocations := by
    rw [hinvocations, hreceived, hfates]
    exact h.invocations
  fits := by
    rw [hreceived, hfates]
    exact h.fits

theorem delivered_concat {received : List EngineFrame} {fates : List FrameFate}
    {frame : EngineFrame} (fate : FrameFate) (hlast : received.getLast? = some frame)
    (h : received.length = fates.length + 1) :
    delivered received (fates ++ [fate]) =
      delivered received fates ++ (fate.delivery frame).toList := by
  unfold delivered
  rw [zip_concat_right fate hlast h, List.filterMap_append]
  cases hd : fate.delivery frame <;> simp [hd]

/-- The last datagram is decided. -/
theorem LedgerInv.decide (h : LedgerInv s) (hone : s.undecided = 1) {frame : EngineFrame}
    (hlast : s.received.getLast? = some frame) {fate : FrameFate} (hfits : fate.Fits frame)
    (hreceived : s'.received = s.received) (hfates : s'.fates = s.fates ++ [fate])
    (hinvocations : s'.invocations = s.invocations ++ (fate.delivery frame).toList)
    (houtstanding : s'.outstanding.Sublist s.outstanding)
    (hrecv : s'.recv = .loop ∨
      ∃ k, s.recv = .waiting k ∧ s'.recv = .waiting k ∧ s'.handling = some k ∧
        k ∉ s'.outstanding.map Prod.fst ∧ s'.Carries ∧ s'.argBytes ≠ [])
    (hhandling : s'.recv = .loop → s'.handling = none) : LedgerInv s' := by
  have hlength : s.received.length = s.fates.length + 1 := by
    rw [h.length, hone]
  have hzero : s'.undecided = 0 := by
    unfold undecided
    rcases hrecv with hloop | ⟨k, -, hwait, hhand, -⟩
    · rw [hloop]
    · rw [hwait]
      exact if_pos hhand
  constructor
  · rw [hreceived, hfates, hzero, List.length_append, List.length_singleton, hlength]
  · intro hreceive
    rcases hrecv with hloop | ⟨k, -, hwait, -⟩
    · rw [hloop] at hreceive
      cases hreceive
    · rw [hwait] at hreceive
      cases hreceive
  · intro hholds
    rcases hrecv with hloop | ⟨k, -, -, -, -, hcarries, -⟩
    · rw [hloop] at hholds
      cases hholds
    · exact hcarries
  · intro htested
    rcases hrecv with hloop | ⟨k, -, -, -, -, -, hbytes⟩
    · rw [hloop] at htested
      cases htested
    · exact hbytes
  · intro k hk
    rcases hrecv with hloop | ⟨k', hwait, hwait', -⟩
    · rw [hloop] at hk
      cases hk
    · rw [hwait', RecvPc.waiting.injEq] at hk
      subst hk
      rw [hreceived]
      exact h.last k' hwait
  · -- what was waited for is decided now
    intro x hx
    left
    rw [hfates, List.length_append, List.length_singleton]
    rcases h.outstanding x (houtstanding.subset hx) with hlt | ⟨hwait, -⟩
    · omega
    · have hnumber := h.last x.1 hwait
      omega
  · exact h.nodup.sublist (houtstanding.map _)
  · intro k hk
    rcases hrecv with hloop | ⟨k', -, hwait, hhand, hnot, -⟩
    · rw [hhandling hloop] at hk
      cases hk
    · rw [hhand, Option.some.injEq] at hk
      subst hk
      exact ⟨hwait, hnot⟩
  · rw [hinvocations, hreceived, hfates, delivered_concat fate hlast hlength, h.invocations]
  · rw [hreceived, hfates, zip_concat_right fate hlast hlength]
    intro x hx
    rcases List.mem_append.mp hx with hx | hx
    · exact h.fits x hx
    · rw [List.mem_singleton.mp hx]
      exact hfits

/-! ## The steps of `RecvThread` -/

theorem LedgerInv.recvStart (h : LedgerInv s) (hrecv : s.recv = .posted) :
    LedgerInv { s with recv := .loop } :=
  h.move (by rw [hrecv]; rfl) rfl rfl rfl rfl rfl rfl (by simp)

theorem LedgerInv.recvLoop (h : LedgerInv s) (hrecv : s.recv = .loop) : LedgerInv s.recvLoop := by
  have hidle : s.recv.holds = false := by
    rw [hrecv]
    rfl
  unfold NetworkEngine.recvLoop
  split
  · exact h.move hidle rfl rfl rfl rfl rfl rfl (by simp)
  · split
    · exact h.move hidle rfl rfl rfl rfl rfl rfl (fun _ => rfl)
    · rename_i stream hstream
      exact h.move hidle rfl rfl rfl rfl rfl rfl (fun _ => by simp [hstream])

theorem LedgerInv.recvWake (h : LedgerInv s) (hrecv : s.recv = .woken) : LedgerInv s.recvWake := by
  refine h.move (by rw [hrecv]; rfl) rfl rfl rfl rfl rfl rfl ?_
  intro hreceive
  cases hreceive

theorem LedgerInv.receiveError (h : LedgerInv s) (hrecv : s.recv = .receive)
    (rest : EngineFrame) : LedgerInv (s.receiveError rest) := by
  have hidle : s.recv.holds = false := by
    rw [hrecv]
    rfl
  unfold NetworkEngine.receiveError receive
  split <;> exact h.move hidle rfl rfl rfl rfl rfl rfl (by simp)

theorem LedgerInv.receiveFrame (h : LedgerInv s) (hrecv : s.recv = .receive)
    (frame : EngineFrame) : LedgerInv (s.receiveFrame frame) := by
  rcases Option.isSome_iff_exists.mp (h.stream hrecv) with ⟨stream, hstream⟩
  have hidle : s.recv.holds = false := by
    rw [hrecv]
    rfl
  have hlength := h.length
  rw [undecided_of_not_holds hidle] at hlength
  have hdata : s.receiveFrame frame =
      { s with
        recv := .got, header := frame.header, received := s.received ++ [frame]
        streams := Function.update s.streams stream frame.payload } := by
    unfold NetworkEngine.receiveFrame receive
    rw [hstream]
  rw [hdata]
  have hzip : (s.received ++ [frame]).zip s.fates = s.received.zip s.fates :=
    zip_concat_left frame (Nat.le_of_eq hlength.symm)
  constructor
  · rw [List.length_append, List.length_singleton, hlength]
    rfl
  · intro hreceive
    cases hreceive
  · intro _
    exact ⟨stream, frame, hstream, List.getLast?_concat, rfl, Function.update_self ..⟩
  · intro htested
    cases htested
  · intro k hk
    cases hk
  · intro x hx
    rcases h.outstanding x hx with hlt | ⟨hwait, -⟩
    · exact Or.inl hlt
    · rw [hrecv] at hwait
      cases hwait
  · exact h.nodup
  · intro k hk
    exact absurd ((h.not_handling hidle).symm.trans hk) (by simp)
  · unfold delivered
    rw [hzip]
    exact h.invocations
  · rw [hzip]
    exact h.fits

theorem Carries.argBytes (h : s.Carries) : ∃ frame, s.received.getLast? = some frame ∧
    s.header = frame.header ∧ s.argBytes = frame.payload := by
  rcases h with ⟨stream, frame, hdata, hlast, hheader, hstream⟩
  refine ⟨frame, hlast, hheader, ?_⟩
  unfold NetworkEngine.argBytes
  rw [hdata]
  exact hstream

/-- `RecvThread` is between `Receive` and `AsyncInvoke`. -/
theorem LedgerInv.open (h : LedgerInv s) (hrecv : s.recv = .got ∨ s.recv = .passed) :
    s.undecided = 1 ∧ s.handling = none ∧ (∀ x ∈ s.outstanding, x.1 < s.fates.length) ∧
      ∃ frame, s.received.getLast? = some frame ∧ s.argBytes = frame.payload := by
  have hnot : ∀ k, s.recv ≠ .waiting k := by
    intro k hk
    rcases hrecv with hr | hr <;> exact absurd (hr.symm.trans hk) (by simp)
  refine ⟨?_, ?_, ?_, ?_⟩
  · unfold undecided
    rcases hrecv with hr | hr <;> rw [hr]
  · cases hk : s.handling with
    | none => rfl
    | some k => exact absurd (h.handling k hk).1 (hnot k)
  · intro x hx
    rcases h.outstanding x hx with hlt | ⟨hwait, -⟩
    · exact hlt
    · exact absurd hwait (hnot x.1)
  · have hholds : s.recv.holds = true := by
      rcases hrecv with hr | hr <;> rw [hr] <;> rfl
    rcases (h.carries hholds).argBytes with ⟨frame, hlast, -, hbytes⟩
    exact ⟨frame, hlast, hbytes⟩

/-- `RecvThread` gives the datagram up and goes back to the head of its loop. -/
theorem LedgerInv.giveUp (h : LedgerInv s) (hone : s.undecided = 1) (hnone : s.handling = none)
    {frame : EngineFrame} (hlast : s.received.getLast? = some frame) (fate : FrameFate)
    (hfits : fate.Fits frame) (hfate : fate.delivery frame = none) {argData : Option ℕ} :
    LedgerInv { s with recv := .loop, argData := argData, fates := s.fates ++ [fate] } := by
  refine h.decide hone hlast hfits rfl rfl ?_ (List.Sublist.refl _) (Or.inl rfl) fun _ => hnone
  rw [hfate]
  exact (List.append_nil _).symm

theorem LedgerInv.recvTest (h : LedgerInv s) (hrecv : s.recv = .got) : LedgerInv s.recvTest := by
  rcases h.open (Or.inl hrecv) with ⟨hone, hnone, hdecided, frame, hlast, hbytes⟩
  unfold NetworkEngine.recvTest
  split
  · rename_i hempty
    exact h.giveUp hone hnone hlast .empty (hbytes.symm.trans hempty) rfl
  · rename_i hfull
    split
    · exact h.giveUp hone hnone hlast .exiting (fun h => hfull (hbytes.trans h)) rfl
    · constructor
      · rw [h.length, hone]
        rfl
      · intro hreceive
        cases hreceive
      · exact fun _ => h.carries (by rw [hrecv]; rfl)
      · exact fun _ => hfull
      · intro k hk
        cases hk
      · exact fun x hx => Or.inl (hdecided x hx)
      · exact h.nodup
      · intro k hk
        exact absurd (hnone.symm.trans hk) (by simp)
      · exact h.invocations
      · exact h.fits

theorem LedgerInv.recvPost (h : LedgerInv s) (hrecv : s.recv = .passed) : LedgerInv s.recvPost := by
  rcases h.open (Or.inr hrecv) with ⟨hone, hnone, hdecided, frame, hlast, hbytes⟩
  have htested := h.tested (by rw [hrecv]; rfl)
  have hlength := h.length
  rw [hone] at hlength
  unfold NetworkEngine.recvPost
  split
  · exact h
  · rename_i stream hstream
    split
    · exact h.giveUp hone hnone hlast .refused (fun h => htested (hbytes.trans h)) rfl
    · have houtstanding : NetworkEngine.outstanding { s with
          queue := s.queue ++ [.incoming (s.received.length - 1) stream]
          recv := .waiting (s.received.length - 1) } =
          s.outstanding ++ [(s.received.length - 1, stream)] := by
        simp [NetworkEngine.outstanding, hand, EngineJob.datagram]
      constructor
      · have hundecided : undecided { s with
            queue := s.queue ++ [.incoming (s.received.length - 1) stream]
            recv := .waiting (s.received.length - 1) } = 1 := by
          show (if s.handling = some (s.received.length - 1) then 0 else 1) = 1
          rw [hnone]
          rfl
        rw [hundecided]
        exact hlength
      · intro hreceive
        cases hreceive
      · exact fun _ => h.carries (by rw [hrecv]; rfl)
      · exact fun _ => htested
      · intro k hk
        rw [RecvPc.waiting.injEq] at hk
        show k + 1 = s.received.length
        omega
      · intro x hx
        rw [houtstanding] at hx
        rcases List.mem_append.mp hx with hx | hx
        · exact Or.inl (hdecided x hx)
        · rw [List.mem_singleton.mp hx]
          exact Or.inr ⟨rfl, hstream⟩
      · -- the messages that are left over are of datagrams before this one
        rw [houtstanding, List.map_append, List.nodup_append]
        refine ⟨h.nodup, List.nodup_singleton _, ?_⟩
        intro k hk k' hk' heq
        rcases List.mem_map.mp hk with ⟨x, hx, rfl⟩
        rw [List.map_singleton, List.mem_singleton] at hk'
        have := hdecided x hx
        omega
      · intro k hk
        exact absurd (hnone.symm.trans hk) (by simp)
      · exact h.invocations
      · exact h.fits

/-- What `RecvThread` waits for, while `Incoming` is not running for it. -/
theorem LedgerInv.waiting (h : LedgerInv s) {k : ℕ} (hrecv : s.recv = .waiting k)
    (hhandling : s.handling ≠ some k) : s.undecided = 1 ∧ s.handling = none ∧
      ∃ frame, s.received.getLast? = some frame ∧ s.header = frame.header ∧
        s.argBytes = frame.payload ∧ frame.payload ≠ [] := by
  have hnone : s.handling = none := by
    cases hk : s.handling with
    | none => rfl
    | some k' =>
      have hwait := (h.handling k' hk).1
      rw [hrecv, RecvPc.waiting.injEq] at hwait
      exact absurd (hwait ▸ hk) hhandling
  have htested := h.tested (by rw [hrecv]; rfl)
  rcases (h.carries (by rw [hrecv]; rfl)).argBytes with ⟨frame, hlast, hheader, hbytes⟩
  refine ⟨?_, hnone, frame, hlast, hheader, hbytes, hbytes ▸ htested⟩
  unfold undecided
  simp [hrecv, hnone]

theorem LedgerInv.recvTimeout (h : LedgerInv s) (hwait : s.canTimeout = true) :
    LedgerInv s.recvTimeout := by
  unfold canTimeout at hwait
  split at hwait
  · rename_i k hrecv
    rcases h.waiting hrecv (by simpa using hwait) with
      ⟨hone, hnone, frame, hlast, -, hbytes, hfull⟩
    exact h.giveUp hone hnone hlast .expired hfull rfl
  · cases hwait

/-! ## The steps of the network thread -/

theorem LedgerInv.post (h : LedgerInv s) {job : EngineJob} (hjob : job.datagram = none) :
    LedgerInv (s.post job) := by
  unfold NetworkEngine.post
  split
  · exact h
  · refine h.same ⟨rfl, rfl, rfl, rfl, rfl, rfl, rfl, rfl, ?_⟩
    simp [NetworkEngine.outstanding, hand, hjob]

theorem LedgerInv.take (h : LedgerInv s) (hidle : s.network = .idle) {job : EngineJob}
    {jobs : List EngineJob} (hqueue : s.queue = job :: jobs) :
    LedgerInv { s with queue := jobs, network := .taken job } := by
  refine h.same ⟨rfl, rfl, rfl, rfl, rfl, rfl, rfl, ?_, ?_⟩
  · simp [NetworkEngine.handling, NetworkPc.job, hidle]
  · simp [NetworkEngine.outstanding, hand, hidle, hqueue]

/-- `Start` on the network thread leaves the datagrams alone. -/
theorem LedgerInv.start (h : LedgerInv s) (callback : Option EngineJob)
    (hjob : callback.bind EngineJob.number = s.handling) : LedgerInv (s.start callback) := by
  unfold NetworkEngine.start
  split
  · exact h.same ⟨rfl, rfl, rfl, rfl, rfl, rfl, rfl, rfl, List.Sublist.refl _⟩
  · refine h.same ⟨rfl, rfl, rfl, rfl, rfl, rfl, rfl, hjob, ?_⟩
    simp [NetworkEngine.outstanding, hand]

/-- The message that was popped turns out to do nothing to the datagrams. -/
theorem LedgerInv.drop (h : LedgerInv s) {job : EngineJob} (htaken : s.network = .taken job) :
    LedgerInv { s with network := .idle } := by
  refine h.same ⟨rfl, rfl, rfl, rfl, rfl, rfl, rfl, ?_, ?_⟩
  · simp [NetworkEngine.handling, NetworkPc.job, htaken]
  · have hsublist : (NetworkEngine.hand { s with network := .idle } ++ s.queue).Sublist
        (s.hand ++ s.queue) := by
      simp [hand, htaken]
    exact hsublist.filterMap _

/-- `Incoming` is entered for the datagram that `RecvThread` waits for. -/
theorem LedgerInv.incoming (h : LedgerInv s) {k stream : ℕ}
    (htaken : s.network = .taken (.incoming k stream)) (hrecv : s.recv = .waiting k) :
    LedgerInv { s.incoming stream with network := .running (.incoming k stream) } := by
  have hnot : s.handling ≠ some k := by
    simp [NetworkEngine.handling, NetworkPc.job, htaken]
  rcases h.waiting hrecv hnot with ⟨hone, hnone, frame, hlast, hheader, hbytes, hfull⟩
  have hlength := h.length
  rw [hone] at hlength
  have houtstanding : s.outstanding = (k, stream) :: s.queue.filterMap EngineJob.datagram := by
    simp [NetworkEngine.outstanding, hand, htaken, EngineJob.datagram]
  have hdata : s.argData = some stream := by
    have hmem : (k, stream) ∈ s.outstanding := by
      rw [houtstanding]
      exact List.mem_cons_self
    rcases h.outstanding _ hmem with hlt | ⟨-, hdata⟩
    · have := h.last k hrecv
      exact absurd hlt (by simp only; omega)
    · exact hdata
  have hstream : s.streams stream = frame.payload := by
    rw [← hbytes]
    unfold argBytes
    rw [hdata]
  have hfirst : k ∉ (s.queue.filterMap EngineJob.datagram).map Prod.fst := by
    have hnodup := h.nodup
    rw [houtstanding, List.map_cons, List.nodup_cons] at hnodup
    exact hnodup.1
  -- the three ways through `Incoming` differ in the fate alone
  have hdecide : ∀ {s' : NetworkEngine} (fate : FrameFate), fate.Fits frame →
      s' = { s with
        fates := s.fates ++ [fate]
        invocations := s.invocations ++ (fate.delivery frame).toList
        network := .running (.incoming k stream) } → LedgerInv s' := by
    intro s' fate hfits hs'
    subst hs'
    refine h.decide hone hlast hfits rfl rfl rfl ?_
      (Or.inr ⟨k, hrecv, hrecv, rfl, hfirst, h.carries ?_, h.tested ?_⟩) ?_
    · rw [houtstanding]
      exact List.sublist_cons_self _ _
    · rw [hrecv]
      rfl
    · rw [hrecv]
      rfl
    · intro hloop
      exact absurd (hrecv.symm.trans hloop) (by simp)
  unfold NetworkEngine.incoming
  split
  · rename_i hack
    refine hdecide .filtered ⟨hfull, hheader ▸ hack⟩ ?_
    simp [FrameFate.delivery]
  · rename_i hack
    rw [hheader] at hack
    split
    · rename_i endpoint hentry
      refine hdecide (.invoked endpoint) ⟨hfull, hack⟩ ?_
      simp [FrameFate.delivery, hstream]
    · refine hdecide .unknown ⟨hfull, hack⟩ ?_
      simp [FrameFate.delivery]

theorem LedgerInv.begin (h : LedgerInv s) {job : EngineJob} (htaken : s.network = .taken job) :
    LedgerInv (s.begin job) := by
  have hdrop := h.drop htaken
  cases job with
  | incoming k stream =>
    unfold NetworkEngine.begin
    dsimp only
    split
    · rename_i hrecv
      exact h.incoming htaken hrecv
    · exact hdrop
  | start => exact hdrop.start none rfl
  | _ => exact hdrop.same ⟨rfl, rfl, rfl, rfl, rfl, rfl, rfl, rfl, List.Sublist.refl _⟩

theorem LedgerInv.startPost (h : LedgerInv s) (hrecv : s.recv = .none)
    {callback : Option EngineJob} (hnetwork : s.network = .starting callback) :
    LedgerInv (s.startPost callback) := by
  have hnew : (s.startPost callback).recv.holds = false ∧
      (s.startPost callback).recv ≠ .receive := by
    unfold NetworkEngine.startPost
    dsimp only
    split <;> simp [hrecv, RecvPc.holds]
  refine h.move (by rw [hrecv]; rfl) hnew.1 rfl rfl rfl ?_ ?_ fun hreceive => absurd hreceive hnew.2
  · cases callback <;>
      simp [NetworkEngine.startPost, NetworkEngine.handling, NetworkPc.job, hnetwork]
  · cases callback <;> simp [NetworkEngine.startPost, NetworkEngine.outstanding, hand, hnetwork]

/-- A job ends, and `RecvThread` is woken if it was `Incoming`. -/
theorem LedgerInv.finish (h : LedgerInv s) {job : EngineJob} (hnetwork : s.network = .running job)
    {network : NetworkPc} (hjob : network.job = none) (htaken : network.isTaken = false) :
    LedgerInv (s.finish network job) := by
  have houtstanding : (s.finish network job).outstanding = s.outstanding := by
    cases network <;>
      simp_all [NetworkEngine.finish, NetworkEngine.outstanding, hand, NetworkPc.isTaken]
  have hnone : (s.finish network job).handling = none := by
    simp [NetworkEngine.finish, NetworkEngine.handling, hjob]
  have hhandling : s.handling = job.number := by
    simp [NetworkEngine.handling, hnetwork, NetworkPc.job]
  cases hnumber : job.number with
  | none =>
    refine h.same ⟨?_, rfl, rfl, rfl, rfl, rfl, rfl, ?_, ?_⟩
    · simp [NetworkEngine.finish, hnumber]
    · rw [hnone, hhandling, hnumber]
    · rw [houtstanding]
  | some k =>
    rw [hnumber] at hhandling
    rcases h.handling k hhandling with ⟨hrecv, hnot⟩
    have hwoken : (s.finish network job).recv = .woken := by
      simp [NetworkEngine.finish, hnumber, hrecv]
    have hlength := h.length
    have hzero : s.undecided = 0 := by
      unfold undecided
      simp [hrecv, hhandling]
    rw [hzero] at hlength
    have hidle : (s.finish network job).recv.holds = false := by
      rw [hwoken]
      rfl
    constructor
    · rw [undecided_of_not_holds hidle]
      exact hlength
    · intro hreceive
      exact absurd (hwoken.symm.trans hreceive) (by simp)
    · intro hholds
      exact absurd (hidle.symm.trans hholds) (by decide)
    · intro htested
      rw [hwoken] at htested
      cases htested
    · intro k' hk'
      exact absurd (hwoken.symm.trans hk') (by simp)
    · intro x hx
      rw [houtstanding] at hx
      rcases h.outstanding x hx with hlt | ⟨hwait, -⟩
      · exact Or.inl hlt
      · -- its message has been entered, so it is not in the queue
        rw [hrecv, RecvPc.waiting.injEq] at hwait
        exact absurd (List.mem_map.mpr ⟨x, hx, hwait.symm⟩) hnot
    · rw [houtstanding]
      exact h.nodup
    · intro k' hk'
      exact absurd (hnone.symm.trans hk') (by simp)
    · exact h.invocations
    · exact h.fits

/-! ## Every step -/

/-- A call of `Stop` moves on. -/
theorem LedgerInv.setCall (h : LedgerInv s) (call : ℕ) (pc : StopPc) :
    LedgerInv (s.setCall call pc) :=
  h.same ⟨rfl, rfl, rfl, rfl, rfl, rfl, rfl, rfl, List.Sublist.refl _⟩

theorem LedgerInv.stopExit (h : LedgerInv s) (call : ℕ) : LedgerInv (s.stopExit call) := by
  unfold NetworkEngine.stopExit
  split
  · exact h.same ⟨rfl, rfl, rfl, rfl, rfl, rfl, rfl, rfl, List.Sublist.refl _⟩
  · exact h.setCall call .joined

theorem LedgerInv.stopPost (h : LedgerInv s) (call : ℕ) : LedgerInv (s.stopPost call) := by
  unfold NetworkEngine.stopPost
  split
  · exact h.setCall call (.returned .refused)
  · refine h.same ⟨rfl, rfl, rfl, rfl, rfl, rfl, rfl, rfl, ?_⟩
    simp [NetworkEngine.outstanding, hand, NetworkEngine.setCall, EngineJob.datagram]

theorem LedgerInv.callback (h : LedgerInv s) (job : EngineJob) : LedgerInv (s.callback job) := by
  cases job with
  | start =>
    unfold NetworkEngine.callback
    dsimp only
    split
    · rename_i current hnetwork
      refine h.start (some current) ?_
      simp [NetworkEngine.handling, hnetwork, NetworkPc.job]
    · exact h
  | _ => exact h.same ⟨rfl, rfl, rfl, rfl, rfl, rfl, rfl, rfl, List.Sublist.refl _⟩

theorem LedgerInv.step (h : LedgerInv s) {l : EngineLabel} (hg : guard l s)
    (hcontrol : s.control.ControlInv) : LedgerInv (update l s) := by
  cases l with
  | post job =>
    refine h.post ?_
    cases job <;> first | rfl | cases hg
  | stopTest call | stopReturn call => exact h.setCall call _
  | stopFlag call | stopJoin call =>
    exact h.same ⟨rfl, rfl, rfl, rfl, rfl, rfl, rfl, rfl, List.Sublist.refl _⟩
  | stopExit call => exact h.stopExit call
  | stopPost call => exact h.stopPost call
  | take =>
    simp only [update]
    split
    · exact h
    · rename_i job jobs hqueue
      exact h.take hg.1 hqueue
  | begin =>
    simp only [update]
    split
    · rename_i job htaken
      exact h.begin htaken
    · exact h
  | startPost =>
    simp only [update]
    split
    · rename_i callback hnetwork
      exact h.startPost (hcontrol.starting hg) hnetwork
    · exact h
  | finish | throw =>
    simp only [update]
    split
    · rename_i job hnetwork
      exact h.finish hnetwork rfl rfl
    · exact h
  | callback job => exact h.callback job
  | recvStart => exact h.recvStart hg
  | recvLoop => exact h.recvLoop hg
  | receiveFrame frame => exact h.receiveFrame hg frame
  | receiveError rest => exact h.receiveError hg rest
  | recvTest => exact h.recvTest hg
  | recvPost => exact h.recvPost hg
  | recvTimeout => exact h.recvTimeout hg
  | recvWake => exact h.recvWake hg

theorem ledger_of_reachable (hr : engineLts.Reachable s) : LedgerInv s := by
  refine hr.induct (P := LedgerInv) ?_ ?_
  · intro s hs
    rw [show s = NetworkEngine.initial from hs]
    exact .initial
  · intro l s hr hg _ ih
    exact ih.step hg (control_of_reachable hr)

theorem undecided_le_one (s : NetworkEngine) : s.undecided ≤ 1 := by
  unfold undecided
  split
  · exact Nat.le_refl 1
  · exact Nat.le_refl 1
  · split <;> decide
  · exact Nat.zero_le 1

end NetworkEngine

/-- **What becomes of the datagrams.** In every reachable state, each datagram that
`Receive` has returned, but for the last one while it is on its way, has met exactly
one fate; an endpoint is invoked for those whose fate it is and for nothing else, in
the order of their arrival and with the bytes that came, although the header and the
stream are shared by reference and a timed-out message stays in the queue. -/
theorem engine_ledger {s : NetworkEngine} (hr : engineLts.Reachable s) :
    s.fates.length ≤ s.received.length ∧ s.received.length ≤ s.fates.length + 1 ∧
      s.invocations = (s.received.zip s.fates).filterMap (fun x => x.2.delivery x.1) ∧
      ∀ x ∈ s.received.zip s.fates, x.2.Fits x.1 := by
  have hinv := NetworkEngine.ledger_of_reachable hr
  have hlength := hinv.length
  have hone := s.undecided_le_one
  exact ⟨by omega, by omega, hinv.invocations, hinv.fits⟩

/-- The first datagram is given up while its message waits, the second one is handled
behind that message, the third one is an ACK. -/
theorem engine_ledger_run : ∃ s : NetworkEngine,
    s.fates = [.expired, .invoked 3, .filtered] ∧ s.invocations = [(3, [2, 2])] ∧
      (s.fates.length ≤ s.received.length ∧ s.received.length ≤ s.fates.length + 1 ∧
        s.invocations = (s.received.zip s.fates).filterMap (fun x => x.2.delivery x.1) ∧
        ∀ x ∈ s.received.zip s.fates, x.2.Fits x.1) := by
  have hrun := Lts.execWhen_reachable engineLts Lts.always
    (show engineLts.init NetworkEngine.initial from rfl)
    [.post .start, .post (.registerEndpoint 7 (some 3)), .take, .begin, .startPost, .take, .begin,
      .recvStart, .recvLoop, .receiveFrame ⟨⟨0xAA55, 7, 0, 1⟩, [1]⟩, .recvTest, .recvPost,
      .recvTimeout, .recvLoop, .receiveFrame ⟨⟨0xAA55, 7, 1, 2⟩, [2, 2]⟩, .recvTest, .recvPost,
      .take, .begin, .take, .begin, .finish, .recvWake, .recvLoop,
      .receiveFrame ⟨⟨0xAA55, 0, 0, 1⟩, [0]⟩, .recvTest, .recvPost, .take, .begin]
    (fun s => s.fates = [.expired, .invoked 3, .filtered] && s.invocations = [(3, [2, 2])])
    (by decide +kernel)
  rcases hrun with ⟨s, hr, hp⟩
  simp only [Bool.and_eq_true, decide_eq_true_eq] at hp
  exact ⟨s, hp.1, hp.2, engine_ledger hr⟩

end AsyncSqlite
