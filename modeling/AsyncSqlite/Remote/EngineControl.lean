import AsyncSqlite.Remote.Engine

/-!
# AsyncSqlite.Remote.EngineControl — `Start` and `Stop`

The part of the engine that decides whether datagrams are received at all: the
receive thread, the flags and the calls of `Stop` (`EngineControl`). `control_step`
says what a step can do to it, and `ControlInv` follows from that.

Nobody clears `m_recvThreadExit` or `m_recvThreadCreated`, so the first `Stop` that
gets past its join is the last thing that happens to the receiving side
(`engine_stop_final`).
-/

namespace AsyncSqlite

structure EngineControl where
  recv : RecvPc
  recvThread : Bool
  recvThreadDone : Bool
  recvThreadExit : Bool
  recvThreadCreated : Bool
  /-- `Start` is between `CreateThread` and the post of `RecvThread` -/
  starting : Bool
  calls : ℕ → StopPc

namespace RecvPc

/-- In the loop of `RecvThread`. -/
def isRunning : RecvPc → Bool
  | .none | .posted | .returned => false
  | _ => true

/-- No datagram is received any more once the exit flag is set. -/
def isOver : RecvPc → Bool
  | .none | .posted | .loop | .returned => true
  | _ => false

end RecvPc

namespace StopPc

/-- The call has set the flag, or found it set. -/
def isFlagged : StopPc → Bool
  | .idle | .tested => false
  | _ => true

/-- The call has joined the receive thread, or found that there is none. -/
def isJoined : StopPc → Bool
  | .joined | .waiting | .done | .returned .refused | .returned .finished => true
  | _ => false

end StopPc

namespace EngineControl

def setCall (c : EngineControl) (call : ℕ) (pc : StopPc) : EngineControl :=
  { c with calls := Function.update c.calls call pc }

/-- What a step can do. -/
inductive Step (c : EngineControl) : EngineControl → Prop
  | keep : Step c c
  | test (call : ℕ) : c.calls call = .idle →
      Step c (c.setCall call (if c.recvThreadExit then .returned .early else .tested))
  | flag (call : ℕ) : c.calls call = .tested →
      Step c { c.setCall call .flagged with recvThreadExit := true }
  | exitThread (call : ℕ) : c.calls call = .flagged → c.recvThread = true →
      Step c { c.setCall call .joining with recvThreadDone := true }
  | exitNone (call : ℕ) : c.calls call = .flagged → c.recvThread = false →
      Step c (c.setCall call .joined)
  | join (call : ℕ) : c.calls call = .joining → c.recv = .none ∨ c.recv = .returned →
      Step c { c.setCall call .joined with recvThread := false }
  /-- the rest of `Stop`, from the post of its message on -/
  | advance (call : ℕ) (pc : StopPc) : (c.calls call).isJoined = true → pc.isJoined = true →
      Step c (c.setCall call pc)
  | create : c.recvThreadCreated = false →
      Step c { c with
        recvThreadCreated := true, recvThread := true, recvThreadDone := false, starting := true }
  | posted : c.starting = true →
      Step c { c with recv := if c.recvThreadDone then c.recv else .posted, starting := false }
  | recvStart : c.recv = .posted → Step c { c with recv := .loop }
  | recvReturn : c.recv = .loop → c.recvThreadExit = true → Step c { c with recv := .returned }
  | recv (pc : RecvPc) : c.recv.isRunning = true → (c.recv = .loop → c.recvThreadExit = false) →
      pc.isRunning = true → Step c { c with recv := pc }

end EngineControl

namespace NetworkEngine

def control (s : NetworkEngine) : EngineControl where
  recv := s.recv
  recvThread := s.recvThread
  recvThreadDone := s.recvThreadDone
  recvThreadExit := s.recvThreadExit
  recvThreadCreated := s.recvThreadCreated
  starting := s.network.isStarting
  calls := s.calls

variable {s s' : NetworkEngine}

open EngineControl

theorem control_start (s : NetworkEngine) (callback : Option EngineJob) :
    Step s.control (s.start callback).control := by
  unfold start
  split
  · exact .keep
  · rename_i hcreated
    have hstep := Step.create (c := s.control) (by simpa [control] using hcreated)
    exact hstep

/-- Only `Start` and `Stop` do something to the control part. -/
theorem control_begin {job : EngineJob} (htaken : s.network = .taken job) :
    Step s.control (s.begin job).control := by
  have hidle : s.control = ({ s with network := .idle } : NetworkEngine).control := by
    simp [control, htaken, NetworkPc.isStarting]
  rw [hidle]
  cases job with
  | incoming k stream =>
    unfold begin
    dsimp only
    split
    · have hincoming : ({ s.incoming stream with network := .running (.incoming k stream) } :
          NetworkEngine).control = ({ s with network := .idle } : NetworkEngine).control := by
        unfold incoming
        split
        · rfl
        · split <;> rfl
      rw [hincoming]
      exact .keep
    · exact .keep
  | start => exact control_start _ none
  | stop call =>
    by_cases hwaiting : s.calls call = .waiting
    · have hcontrol : (s.begin (.stop call)).control =
          ({ s with network := .idle } : NetworkEngine).control.setCall call .done := by
        unfold begin
        dsimp only
        rw [if_pos hwaiting]
        rfl
      rw [hcontrol]
      refine .advance call .done ?_ rfl
      simp [control, hwaiting, StopPc.isJoined]
    · have hcontrol : (s.begin (.stop call)).control =
          ({ s with network := .idle } : NetworkEngine).control := by
        unfold begin
        dsimp only
        rw [if_neg hwaiting, Function.update_eq_self]
        rfl
      rw [hcontrol]
      exact .keep
  | registerEndpoint id endpoint => exact .keep
  | doInitialize connects => exact .keep
  | other => exact .keep

/-- The end of a job does no more than wake `RecvThread`. -/
theorem control_finish {job : EngineJob} (hnetwork : s.network = .running job)
    {network : NetworkPc} (hend : network.isStarting = false) :
    Step s.control (s.finish network job).control := by
  have hrunning : s.network.isStarting = false := by
    rw [hnetwork]
    rfl
  have hcontrol : ∀ pc, (s.finish network job).recv = pc →
      (s.finish network job).control = { s.control with recv := pc } := by
    rintro pc rfl
    simp [finish, control, hend, hrunning]
  by_cases hwait : ∃ k, job.number = some k ∧ s.recv = .waiting k
  · rcases hwait with ⟨k, hk, hrecv⟩
    rw [hcontrol .woken (by simp [finish, hk, hrecv])]
    refine .recv .woken ?_ ?_ rfl
    · simp [control, hrecv, RecvPc.isRunning]
    · intro hloop
      exact absurd (hrecv.symm.trans hloop) (by simp)
  · have hsame : (s.finish network job).recv = s.recv := by
      unfold finish
      dsimp only
      split
      · rename_i k hk
        exact if_neg fun hrecv => hwait ⟨k, hk, hrecv⟩
      · rfl
    rw [hcontrol s.recv hsame]
    exact .keep

/-- `RecvThread` goes on in its loop. -/
theorem control_recv {pc pc' : RecvPc} (hpc : s.recv = pc) (hrunning : pc.isRunning = true)
    (hloop : pc ≠ .loop) (hrunning' : pc'.isRunning = true)
    (hcontrol : s'.control = { s.control with recv := pc' }) : Step s.control s'.control := by
  rw [hcontrol]
  refine .recv pc' ?_ ?_ hrunning'
  · simp [control, hpc, hrunning]
  · intro h
    exact absurd (hpc.symm.trans h) hloop

theorem control_step {l : EngineLabel} (hg : guard l s) :
    Step s.control (update l s).control := by
  cases l with
  | post job =>
    simp only [update, post]
    split <;> exact .keep
  | stopTest call => exact .test call hg
  | stopFlag call => exact .flag call hg
  | stopExit call =>
    simp only [update, stopExit]
    split
    · rename_i hthread
      exact .exitThread call hg hthread
    · rename_i hthread
      exact .exitNone call hg (by simpa [control] using hthread)
  | stopJoin call => exact .join call hg.1 hg.2
  | stopPost call =>
    have hjoined : (s.control.calls call).isJoined = true := by
      rw [show s.control.calls call = .joined from hg]
      rfl
    simp only [update, stopPost]
    split
    · exact .advance call (.returned .refused) hjoined rfl
    · exact .advance call .waiting hjoined rfl
  | stopReturn call =>
    refine .advance call (.returned .finished) ?_ rfl
    rw [show s.control.calls call = .done from hg]
    rfl
  | take =>
    simp only [update]
    split
    · exact .keep
    · rename_i job jobs hqueue
      have hsame : ({ s with queue := jobs, network := .taken job } : NetworkEngine).control =
          s.control := by
        simp [control, hg.1, NetworkPc.isStarting]
      rw [hsame]
      exact .keep
  | begin =>
    simp only [update]
    split
    · rename_i job htaken
      exact control_begin htaken
    · exact .keep
  | startPost =>
    simp only [update]
    split
    · rename_i callback hnetwork
      have hstarting : s.control.starting = true := by
        simp [control, hnetwork, NetworkPc.isStarting]
      have hstep := Step.posted hstarting
      cases callback <;> exact hstep
    · exact .keep
  | finish | throw =>
    simp only [update]
    split
    · rename_i job hnetwork
      exact control_finish hnetwork rfl
    · exact .keep
  | callback job =>
    simp only [update, callback]
    split
    · split
      · exact control_start s _
      · exact .keep
    · exact .keep
    · exact .keep
    · exact .keep
    · exact .keep
    · exact .keep
  | recvStart => exact .recvStart hg
  | recvLoop =>
    simp only [update, recvLoop]
    split
    · rename_i hexit
      exact .recvReturn hg hexit
    · rename_i hexit
      have hstep : Step s.control { s.control with recv := .receive } := by
        refine .recv .receive ?_ (fun _ => by simpa [control] using hexit) rfl
        rw [show s.control.recv = .loop from hg]
        rfl
      split <;> exact hstep
  | receiveFrame frame =>
    simp only [update, receiveFrame, receive]
    split <;> exact control_recv hg rfl (by simp) rfl rfl
  | receiveError rest =>
    simp only [update, receiveError, receive]
    split <;> exact control_recv hg rfl (by simp) rfl rfl
  | recvTest =>
    simp only [update, recvTest]
    split
    · exact control_recv hg rfl (by simp) rfl rfl
    · split <;> exact control_recv hg rfl (by simp) rfl rfl
  | recvPost =>
    simp only [update, recvPost]
    split
    · exact .keep
    · split <;> exact control_recv hg rfl (by simp) rfl rfl
  | recvTimeout =>
    have hwait : ∃ k, s.recv = .waiting k := by
      rcases hrecv : s.recv with _ | _ | _ | _ | _ | _ | k | _ | _
      case waiting => exact ⟨k, rfl⟩
      all_goals
        have hwait : s.canTimeout = true := hg
        simp [canTimeout, hrecv] at hwait
    rcases hwait with ⟨k, hrecv⟩
    exact control_recv hrecv rfl (by simp) rfl rfl
  | recvWake => exact control_recv hg rfl (by simp) rfl rfl

end NetworkEngine

/-! ## The invariant -/

namespace EngineControl

structure ControlInv (c : EngineControl) : Prop where
  flag : ∀ call, (c.calls call).isFlagged = true → c.recvThreadExit = true
  gone : c.recvThread = false → c.recv = .none ∨ c.recv = .returned
  thread : c.recvThread = true → c.recvThreadCreated = true
  joining : ∀ call, c.calls call = .joining →
    c.recvThreadDone = true ∧ c.recvThreadCreated = true
  joined : ∀ call, (c.calls call).isJoined = true → c.recv.isOver = true
  fresh : c.recvThreadCreated = false → c.recv = .none
  created : c.starting = true → c.recvThreadCreated = true
  starting : c.starting = true → c.recv = .none
  half : c.starting = true → c.recvThread = true ∨ c.recvThreadDone = true

theorem ControlInv.initial : ControlInv NetworkEngine.initial.control where
  flag := by intro call h; cases h
  gone := fun _ => Or.inl rfl
  thread := by intro h; cases h
  joining := by intro call h; cases h
  joined := by intro call h; cases h
  fresh := fun _ => rfl
  created := by intro h; cases h
  starting := fun _ => rfl
  half := by intro h; cases h

variable {c c' : EngineControl}

/-- A call moves on, and the receive thread is where it was. -/
theorem ControlInv.setCall (h : ControlInv c) (call : ℕ) {pc : StopPc}
    (hflag : pc.isFlagged = true → c.recvThreadExit = true)
    (hjoining : pc = .joining → c.recvThreadDone = true ∧ c.recvThreadCreated = true)
    (hjoined : pc.isJoined = true → c.recv.isOver = true) : ControlInv (c.setCall call pc) := by
  have hset : ∀ {p : StopPc → Prop}, p pc → (∀ call', p (c.calls call')) →
      ∀ call', p ((c.setCall call pc).calls call') := by
    intro p hpc hcalls call'
    by_cases hcall : call' = call
    · subst hcall
      simpa [EngineControl.setCall] using hpc
    · simpa [EngineControl.setCall, Function.update_of_ne hcall] using hcalls call'
  exact { h with
    flag := hset (p := fun pc => pc.isFlagged = true → c.recvThreadExit = true) hflag h.flag
    joining := hset
      (p := fun pc => pc = .joining → c.recvThreadDone = true ∧ c.recvThreadCreated = true)
      hjoining h.joining
    joined := hset (p := fun pc => pc.isJoined = true → c.recv.isOver = true) hjoined h.joined }

/-- `RecvThread` moves on; it was created, and `Start` is not in the middle of it. -/
theorem ControlInv.setRecv (h : ControlInv c) (hrecv : c.recv ≠ .none) {pc : RecvPc}
    (hgone : c.recvThread = false → pc = .returned)
    (hover : c.recvThreadExit = true → c.recv.isOver = true → pc.isOver = true) :
    ControlInv { c with recv := pc } :=
  { h with
    gone := fun hthread => Or.inr (hgone hthread)
    joined := fun call hjoined => hover
      (h.flag call (by cases hcall : c.calls call <;> simp_all [StopPc.isJoined, StopPc.isFlagged]))
      (h.joined call hjoined)
    fresh := fun hcreated => absurd (h.fresh hcreated) hrecv
    starting := fun hstarting => absurd (h.starting hstarting) hrecv }

theorem ControlInv.step (h : ControlInv c) (hstep : Step c c') : ControlInv c' := by
  cases hstep with
  | keep => exact h
  | test call hidle =>
    cases hexit : c.recvThreadExit with
    | false =>
      exact h.setCall call (by simp [StopPc.isFlagged]) (by simp) (by simp [StopPc.isJoined])
    | true => exact h.setCall call (fun _ => hexit) (by simp) (by simp [StopPc.isJoined])
  | flag call htested =>
    have hset : ControlInv { c with recvThreadExit := true } := { h with flag := fun _ _ => rfl }
    exact hset.setCall call (fun _ => rfl) (by simp) (by simp [StopPc.isJoined])
  | exitThread call hflagged hthread =>
    have hset : ControlInv { c with recvThreadDone := true } :=
      { h with
        joining := fun call hcall => ⟨rfl, (h.joining call hcall).2⟩
        half := fun _ => Or.inr rfl }
    refine hset.setCall call (fun _ => h.flag call ?_) (fun _ => ⟨rfl, h.thread hthread⟩)
      (by simp [StopPc.isJoined])
    rw [hflagged]
    rfl
  | exitNone call hflagged hthread =>
    refine h.setCall call (fun _ => h.flag call ?_) (by simp) (fun _ => ?_)
    · rw [hflagged]
      rfl
    · rcases h.gone hthread with hrecv | hrecv <;> rw [hrecv] <;> rfl
  | join call hjoining hended =>
    -- the thread was told to exit, so a `Start` in progress does not post `RecvThread`
    have hset : ControlInv { c with recvThread := false } :=
      { h with
        gone := fun _ => hended
        thread := by intro hthread; cases hthread
        half := fun _ => Or.inr (h.joining call hjoining).1 }
    refine hset.setCall call (fun _ => h.flag call ?_) (by simp) (fun _ => ?_)
    · rw [hjoining]
      rfl
    · show c.recv.isOver = true
      rcases hended with hrecv | hrecv <;> rw [hrecv] <;> rfl
  | advance call pc hjoined hpc =>
    refine h.setCall call (fun _ => h.flag call ?_) ?_ (fun _ => h.joined call hjoined)
    · cases hcall : c.calls call <;> simp_all [StopPc.isJoined, StopPc.isFlagged]
    · rintro rfl
      cases hpc
  | create hcreated =>
    exact { h with
      gone := by intro hthread; cases hthread
      thread := fun _ => rfl
      joining := fun call hcall =>
        absurd ((h.joining call hcall).2.symm.trans hcreated) (by decide)
      fresh := by intro hc; cases hc
      created := fun _ => rfl
      starting := fun _ => h.fresh hcreated
      half := fun _ => Or.inl rfl }
  | posted hstarting =>
    have hrecv := h.starting hstarting
    have hcreated := h.created hstarting
    cases hdone : c.recvThreadDone with
    | true =>
      exact { h with
        gone := fun _ => Or.inl hrecv
        joining := fun _ _ => ⟨rfl, hcreated⟩
        created := by intro hs; cases hs
        starting := by intro hs; cases hs
        half := by intro hs; cases hs }
    | false =>
      have hthread : c.recvThread = true :=
        (h.half hstarting).resolve_right (by rw [hdone]; decide)
      exact { h with
        gone := fun ht => absurd (hthread.symm.trans ht) (by decide)
        joining := fun call hcall =>
          absurd ((h.joining call hcall).1.symm.trans hdone) (by decide)
        joined := fun _ _ => rfl
        fresh := fun hc => absurd (hcreated.symm.trans hc) (by decide)
        created := by intro hs; cases hs
        starting := by intro hs; cases hs
        half := by intro hs; cases hs }
  | recvStart hrecv =>
    refine h.setRecv (by simp [hrecv]) (fun hthread => ?_) (fun _ _ => rfl)
    rcases h.gone hthread with hr | hr <;> exact absurd (hrecv.symm.trans hr) (by simp)
  | recvReturn hrecv hexit =>
    exact h.setRecv (by simp [hrecv]) (fun _ => rfl) (fun _ _ => rfl)
  | recv pc hrunning hloop hpc =>
    refine h.setRecv ?_ (fun hthread => ?_) (fun hexit hover => ?_)
    · intro hr
      rw [hr] at hrunning
      cases hrunning
    · rcases h.gone hthread with hr | hr <;> rw [hr] at hrunning <;> cases hrunning
    · -- the loop ends at its head
      have hr : c.recv = .loop := by
        cases hr : c.recv <;> simp_all [RecvPc.isRunning, RecvPc.isOver]
      exact absurd ((hloop hr).symm.trans hexit) (by decide)

end EngineControl

namespace NetworkEngine

open EngineControl

variable {s s' : NetworkEngine}

theorem control_of_reachable (hr : engineLts.Reachable s) : ControlInv s.control := by
  refine hr.induct (P := fun s => ControlInv s.control) ?_ ?_
  · intro s hs
    rw [show s = NetworkEngine.initial from hs]
    exact .initial
  · intro l s _ hg _ ih
    exact ih.step (control_step hg)

/-- A `Stop` that is past the join stays there. -/
theorem joined_step {c c' : EngineControl} (hstep : Step c c') {call : ℕ}
    (h : (c.calls call).isJoined = true) : (c'.calls call).isJoined = true := by
  have hset : ∀ {call' pc}, (call' = call → pc.isJoined = true) →
      ((c.setCall call' pc).calls call).isJoined = true := by
    intro call' pc hpc
    by_cases hcall : call' = call
    · subst hcall
      simpa [EngineControl.setCall] using hpc rfl
    · simpa [EngineControl.setCall, Function.update_of_ne (Ne.symm hcall)] using h
  have hother : ∀ {call' pc}, c.calls call' = pc → pc.isJoined = false → call' ≠ call := by
    rintro call' pc hcall hpc rfl
    rw [hcall, hpc] at h
    cases h
  cases hstep with
  | keep | create _ | posted _ | recvStart _ | recvReturn _ _ | recv _ _ _ _ => exact h
  | test call' hcall | flag call' hcall | exitThread call' hcall _ =>
    exact hset fun heq => absurd heq (hother hcall rfl)
  | exitNone call' _ _ | join call' _ _ => exact hset fun _ => rfl
  | advance call' pc _ hpc => exact hset fun _ => hpc

/-- What was received, and what was invoked. -/
def log (s : NetworkEngine) : List EngineFrame × List (ℕ × List UInt8) :=
  (s.received, s.invocations)

theorem log_start (s : NetworkEngine) (callback : Option EngineJob) :
    (s.start callback).log = s.log := by
  unfold start
  split <;> rfl

/-- While `RecvThread` neither receives nor waits, nothing is received or invoked. -/
theorem log_of_over (hover : s.recv.isOver = true) {l : EngineLabel} (hg : guard l s) :
    (update l s).log = s.log := by
  have hrecv : ∀ {pc : RecvPc}, s.recv = pc → pc.isOver = false → (update l s).log = s.log := by
    intro pc hpc hnot
    rw [hpc, hnot] at hover
    cases hover
  cases l with
  | post job =>
    simp only [update, post]
    split <;> rfl
  | stopTest call | stopFlag call | stopJoin call | stopReturn call => rfl
  | stopExit call =>
    simp only [update, stopExit]
    split <;> rfl
  | stopPost call =>
    simp only [update, stopPost]
    split <;> rfl
  | take =>
    simp only [update]
    split <;> rfl
  | begin =>
    simp only [update]
    split
    · rename_i job htaken
      cases job with
      | incoming k stream =>
        unfold begin
        dsimp only
        split
        · rename_i hwait
          exact absurd (hwait ▸ hover) (by simp [RecvPc.isOver])
        · rfl
      | start => exact log_start _ none
      | _ => rfl
    · rfl
  | startPost | finish | throw =>
    simp only [update]
    split <;> rfl
  | callback job =>
    simp only [update, callback]
    split
    · split
      · exact log_start s _
      · rfl
    all_goals rfl
  | recvStart | recvTimeout | recvWake => rfl
  | recvLoop =>
    simp only [update, recvLoop]
    split
    · rfl
    · split <;> rfl
  | receiveFrame frame | receiveError rest => exact hrecv hg rfl
  | recvTest => exact hrecv hg rfl
  | recvPost => exact hrecv hg rfl

/-- A `Stop` is past its join, and the receiving side is where it was then. -/
structure Ended (call : ℕ) (log : List EngineFrame × List (ℕ × List UInt8)) (s : NetworkEngine) :
    Prop where
  joined : (s.calls call).isJoined = true
  log : s.log = log

theorem Ended.step {call : ℕ} {log : List EngineFrame × List (ℕ × List UInt8)}
    (h : Ended call log s) (hinv : ControlInv s.control) {l : EngineLabel} (hg : guard l s) :
    Ended call log (update l s) where
  joined := joined_step (control_step hg) h.joined
  log := (log_of_over (hinv.joined call h.joined) hg).trans h.log

end NetworkEngine

/-- **`Stop` is final.** Once a call of `Stop` from another thread has got past its
join, no datagram is received and no endpoint is invoked any more, and `RecvThread` is
not in `Receive`, whatever is called from then on, `Start` included. -/
theorem engine_stop_final {s s' : NetworkEngine} (hr : engineLts.Reachable s) {call : ℕ}
    (hjoined : (s.calls call).isJoined = true) (hsteps : engineLts.Steps s s') :
    s'.received = s.received ∧ s'.invocations = s.invocations ∧ s'.recv.isOver = true := by
  have hended : NetworkEngine.Ended call s.log s' :=
    hr.preserves (P := NetworkEngine.Ended call s.log)
      (fun l t ht hg _ h => h.step (NetworkEngine.control_of_reachable ht) hg) hsteps ⟨hjoined, rfl⟩
  have hinv := NetworkEngine.control_of_reachable (hr.steps hsteps)
  rcases Prod.mk.injEq .. ▸ hended.log with ⟨hreceived, hinvocations⟩
  exact ⟨hreceived, hinvocations, hinv.joined call hended.joined⟩

/-- One datagram is handled while `Stop` sets the flag; a `Start` follows the join. -/
theorem engine_stop_final_run : ∃ s s' : NetworkEngine,
    s.invocations = [(3, [1, 2])] ∧ s.calls 0 = .joined ∧ s'.timer = true ∧
      (s'.received = s.received ∧ s'.invocations = s.invocations ∧ s'.recv.isOver = true) := by
  have hrun : ((engineLts.execWhen Lts.always NetworkEngine.initial
      [.post .start, .post (.registerEndpoint 7 (some 3)), .take, .begin, .startPost, .take, .begin,
        .recvStart, .recvLoop, .receiveFrame ⟨⟨0xAA55, 7, 0, 2⟩, [1, 2]⟩, .recvTest, .recvPost,
        .stopTest 0, .stopFlag 0, .stopExit 0, .take, .begin, .finish, .recvWake, .recvLoop,
        .stopJoin 0]).any
      fun s => s.invocations = [(3, [1, 2])] && s.calls 0 = .joined &&
        (engineLts.execWhen Lts.always s [.post .start, .stopPost 0, .take, .begin]).any
          fun s' => s'.timer) = true := by
    decide +kernel
  rcases (Option.any_eq_true _ _).mp hrun with ⟨s, hs, hp⟩
  simp only [Bool.and_eq_true, decide_eq_true_eq] at hp
  rcases hp with ⟨⟨hinvocations, hcall⟩, hnext⟩
  rcases (Option.any_eq_true _ _).mp hnext with ⟨s', hs', htimer⟩
  have hr : engineLts.Reachable s := ⟨NetworkEngine.initial, rfl, Lts.execWhen_steps _ hs⟩
  have hjoined : (s.calls 0).isJoined = true := by
    rw [hcall]
    rfl
  exact ⟨s, s', hinvocations, hcall, htimer,
    engine_stop_final hr hjoined (Lts.execWhen_steps _ hs')⟩

end AsyncSqlite
