import AsyncSqlite.Lts.Rank
import AsyncSqlite.Remote.EngineLedger

/-!
# AsyncSqlite.Remote.EngineStop — `Stop` comes to its end

`Stop` joins the receive thread, which may be waiting for the network thread, and
then waits for the network thread itself without a limit. Once the flag is set,
everything that is in progress lowers a rank: the receive thread leaves its loop at
the next test, and the network thread has the messages that are in its queue. So
nobody waits for ever, unless the network thread has faulted.
-/

namespace AsyncSqlite

namespace EngineLabel

/-- The steps of one call of `Stop`, of the receive thread and of the network thread,
whose callbacks return without calling anything. -/
def InStop (call : ℕ) : EngineLabel → Prop
  | .stopExit call' | .stopJoin call' | .stopPost call' | .stopReturn call' => call' = call
  | .take | .begin | .startPost | .finish => True
  | .recvStart | .recvLoop | .receiveFrame _ | .receiveError _ => True
  | .recvTest | .recvPost | .recvTimeout | .recvWake => True
  | _ => False

end EngineLabel

/-! ## The rank -/

namespace RecvPc

def rank : RecvPc → ℕ
  | .none | .returned => 0
  | .loop => 1
  | .posted | .woken => 2
  | .waiting _ => 3
  | .passed => 10
  | .got => 11
  | .receive => 12

end RecvPc

namespace NetworkPc

def rank : NetworkPc → ℕ
  | .idle | .faulted => 0
  | .running _ => 1
  | .starting _ => 4
  | .taken _ => 5

theorem rank_idle : NetworkPc.idle.rank = 0 := rfl

theorem rank_starting (callback : Option EngineJob) : (NetworkPc.starting callback).rank = 4 := rfl

end NetworkPc

namespace StopPc

def rank : StopPc → ℕ
  | .returned _ => 0
  | .done => 1
  | .waiting => 3
  | .joined => 10
  | .joining => 11
  | .idle | .tested | .flagged => 12

end StopPc

namespace NetworkEngine

variable {s s' : NetworkEngine} {call : ℕ}

def stopRank (call : ℕ) (s : NetworkEngine) : ℕ :=
  s.recv.rank + s.network.rank + 6 * s.queue.length + (s.calls call).rank

/-! ## The queue -/

/-- The queue keeps to its size, and a call that waits for its message has it there. -/
structure QueueInv (s : NetworkEngine) : Prop where
  size : s.queue.length ≤ maxQueue
  waiting : ∀ call, s.calls call = .waiting →
    s.network = .taken (.stop call) ∨ .stop call ∈ s.queue

theorem QueueInv.initial : QueueInv initial where
  size := Nat.zero_le _
  waiting := by intro call h; cases h

/-- The queue is what it was, and no call has begun to wait. -/
theorem QueueInv.keep (h : QueueInv s) (hqueue : s'.queue = s.queue)
    (hnetwork : s'.network = s.network ∨ s.network.isTaken = false)
    (hcalls : ∀ call, s'.calls call = .waiting → s.calls call = .waiting) : QueueInv s' where
  size := by
    rw [hqueue]
    exact h.size
  waiting := by
    intro call hcall
    rw [hqueue]
    rcases h.waiting call (hcalls call hcall) with htaken | hmem
    · rcases hnetwork with hsame | hnot
      · exact Or.inl (hsame.trans htaken)
      · rw [htaken] at hnot
        cases hnot
    · exact Or.inr hmem

theorem QueueInv.setCall (h : QueueInv s) (call : ℕ) {pc : StopPc} (hpc : pc ≠ .waiting) :
    QueueInv (s.setCall call pc) := by
  refine h.keep rfl (Or.inl rfl) ?_
  intro call' hcall'
  by_cases hcall : call' = call
  · subst hcall
    exact absurd (by simpa [NetworkEngine.setCall] using hcall') hpc
  · simpa [NetworkEngine.setCall, Function.update_of_ne hcall] using hcall'

theorem QueueInv.post (h : QueueInv s) (job : EngineJob) : QueueInv (s.post job) := by
  unfold NetworkEngine.post
  split
  · exact h
  · rename_i hroom
    constructor
    · simp only [isFull, decide_eq_true_eq, not_le] at hroom
      rw [List.length_append]
      exact hroom
    · intro call hcall
      rcases h.waiting call hcall with htaken | hmem
      · exact Or.inl htaken
      · exact Or.inr (List.mem_append_left _ hmem)

theorem QueueInv.stopPost (h : QueueInv s) (call : ℕ) : QueueInv (s.stopPost call) := by
  unfold NetworkEngine.stopPost
  split
  · exact h.setCall call (by simp)
  · rename_i hroom
    have hpost := h.post (.stop call)
    unfold NetworkEngine.post at hpost
    rw [if_neg hroom] at hpost
    constructor
    · exact hpost.size
    · intro call' hcall'
      by_cases hcall : call' = call
      · subst hcall
        exact Or.inr (List.mem_append_right _ (List.mem_singleton_self _))
      · have hother : s.calls call' = .waiting := by
          simpa [NetworkEngine.setCall, Function.update_of_ne hcall] using hcall'
        exact hpost.waiting call' hother

theorem QueueInv.take (h : QueueInv s) (hidle : s.network = .idle) {job : EngineJob}
    {jobs : List EngineJob} (hqueue : s.queue = job :: jobs) :
    QueueInv { s with queue := jobs, network := .taken job } where
  size := by
    have hsize := h.size
    rw [hqueue, List.length_cons] at hsize
    exact Nat.le_of_succ_le hsize
  waiting := by
    intro call hcall
    rcases h.waiting call hcall with htaken | hmem
    · exact absurd (hidle.symm.trans htaken) (by simp)
    · rw [hqueue] at hmem
      rcases List.mem_cons.mp hmem with rfl | hmem
      · exact Or.inl rfl
      · exact Or.inr hmem

theorem queue_start (s : NetworkEngine) (callback : Option EngineJob) :
    (s.start callback).queue = s.queue ∧ (s.start callback).calls = s.calls ∧
      ((s.start callback).network = s.network ∨
        (s.start callback).network = .starting callback) := by
  unfold start
  split
  · exact ⟨rfl, rfl, Or.inl rfl⟩
  · exact ⟨rfl, rfl, Or.inr rfl⟩

/-- A message that was popped is done with. -/
theorem QueueInv.leave (h : QueueInv s) {job : EngineJob} (htaken : s.network = .taken job)
    (hqueue : s'.queue = s.queue)
    (hcalls : ∀ call, s'.calls call = .waiting → s.calls call = .waiting ∧ job ≠ .stop call) :
    QueueInv s' where
  size := by
    rw [hqueue]
    exact h.size
  waiting := by
    intro call hcall
    rcases hcalls call hcall with ⟨hwaiting, hjob⟩
    rcases h.waiting call hwaiting with hstop | hmem
    · rw [htaken, NetworkPc.taken.injEq] at hstop
      exact absurd hstop hjob
    · rw [hqueue]
      exact Or.inr hmem

theorem QueueInv.begin (h : QueueInv s) {job : EngineJob} (htaken : s.network = .taken job) :
    QueueInv (s.begin job) := by
  cases job with
  | incoming k stream =>
    have hsame : (s.begin (.incoming k stream)).queue = s.queue ∧
        (s.begin (.incoming k stream)).calls = s.calls := by
      unfold NetworkEngine.begin
      dsimp only
      split
      · unfold incoming
        split
        · exact ⟨rfl, rfl⟩
        · split <;> exact ⟨rfl, rfl⟩
      · exact ⟨rfl, rfl⟩
    exact h.leave htaken hsame.1 fun call hcall => ⟨by rw [← hsame.2]; exact hcall, by simp⟩
  | start =>
    have hsame := queue_start { s with network := .idle } none
    refine h.leave htaken hsame.1 fun call hcall => ⟨?_, by simp⟩
    have hcalls : (s.begin .start).calls = s.calls := hsame.2.1
    rw [← hcalls]
    exact hcall
  | stop call =>
    refine h.leave htaken rfl fun call' hcall' => ?_
    by_cases hcall : call' = call
    · -- the call it was posted for does not wait any more
      subst hcall
      simp only [NetworkEngine.begin, Function.update_self] at hcall'
      split at hcall'
      · cases hcall'
      · rename_i hnot
        exact absurd hcall' hnot
    · have hother : s.calls call' = .waiting := by
        simpa [NetworkEngine.begin, Function.update_of_ne hcall] using hcall'
      refine ⟨hother, ?_⟩
      rw [ne_eq, EngineJob.stop.injEq]
      exact Ne.symm hcall
  | _ => exact h.leave htaken rfl fun call hcall => ⟨hcall, by simp⟩

theorem QueueInv.step (h : QueueInv s) {l : EngineLabel} (hg : guard l s) :
    QueueInv (update l s) := by
  have hkeep : ∀ {s' : NetworkEngine}, s'.queue = s.queue → s'.network = s.network →
      s'.calls = s.calls → QueueInv s' := by
    intro s' hqueue hnetwork hcalls
    refine h.keep hqueue (Or.inl hnetwork) fun call hcall => ?_
    rw [← hcalls]
    exact hcall
  cases l with
  | post job => exact h.post job
  | stopTest call =>
    simp only [update, stopTest]
    split <;> exact h.setCall call (by simp)
  | stopFlag call | stopJoin call =>
    refine (h.setCall call ?_).keep rfl (Or.inl rfl) fun _ hcall => hcall
    simp
  | stopExit call =>
    simp only [update, stopExit]
    split
    · exact (h.setCall call (by simp)).keep rfl (Or.inl rfl) fun _ hcall => hcall
    · exact h.setCall call (by simp)
  | stopPost call => exact h.stopPost call
  | stopReturn call => exact h.setCall call (by simp)
  | take =>
    simp only [update]
    split
    · exact h
    · rename_i job jobs hqueue
      exact h.take hg.1 hqueue
  | begin =>
    simp only [update]
    split
    · rename_i job htaken
      exact h.begin htaken
    · exact h
  | startPost =>
    simp only [update]
    split
    · rename_i callback hnetwork
      exact h.keep rfl (Or.inr (by rw [hnetwork]; rfl)) fun _ hcall => hcall
    · exact h
  | finish | throw =>
    simp only [update]
    split
    · rename_i job hnetwork
      exact h.keep rfl (Or.inr (by rw [hnetwork]; rfl)) fun _ hcall => hcall
    · exact h
  | callback job =>
    cases job with
    | start =>
      simp only [update, callback]
      split
      · rename_i current hnetwork
        have hsame := queue_start s (some current)
        refine h.keep hsame.1 (Or.inr (by rw [hnetwork]; rfl)) fun call hcall => ?_
        rw [← hsame.2.1]
        exact hcall
      · exact h
    | _ => exact hkeep rfl rfl rfl
  | recvStart | recvTimeout | recvWake => exact hkeep rfl rfl rfl
  | recvLoop =>
    simp only [update, recvLoop]
    split
    · exact hkeep rfl rfl rfl
    · split <;> exact hkeep rfl rfl rfl
  | receiveFrame frame =>
    simp only [update, receiveFrame, receive]
    split <;> exact hkeep rfl rfl rfl
  | receiveError rest =>
    simp only [update, receiveError, receive]
    split <;> exact hkeep rfl rfl rfl
  | recvTest =>
    simp only [update, recvTest]
    split
    · exact hkeep rfl rfl rfl
    · split <;> exact hkeep rfl rfl rfl
  | recvPost =>
    simp only [update, recvPost]
    split
    · exact h
    · split
      · exact hkeep rfl rfl rfl
      · rename_i stream _ hroom
        have hpost := h.post (.incoming (s.received.length - 1) stream)
        unfold NetworkEngine.post at hpost
        rw [if_neg hroom] at hpost
        exact hpost.keep rfl (Or.inl rfl) fun _ hcall => hcall

theorem queue_of_reachable (hr : engineLts.Reachable s) : QueueInv s := by
  refine hr.induct (P := QueueInv) ?_ ?_
  · intro s hs
    rw [show s = NetworkEngine.initial from hs]
    exact .initial
  · intro l s _ hg _ ih
    exact ih.step hg

/-! ## The steps -/

/-- A call of `Stop` that has set the flag, or found it set, stays behind that. -/
theorem flagged_step {c c' : EngineControl} (hstep : EngineControl.Step c c') {call : ℕ}
    (h : (c.calls call).isFlagged = true) (hexit : c.recvThreadExit = true) :
    (c'.calls call).isFlagged = true := by
  have hset : ∀ {call' pc}, (call' = call → pc.isFlagged = true) →
      ((c.setCall call' pc).calls call).isFlagged = true := by
    intro call' pc hpc
    by_cases hcall : call' = call
    · subst hcall
      simpa [EngineControl.setCall] using hpc rfl
    · simpa [EngineControl.setCall, Function.update_of_ne (Ne.symm hcall)] using h
  cases hstep with
  | keep | create _ | posted _ | recvStart _ | recvReturn _ _ | recv _ _ _ _ => exact h
  | test call' _ =>
    rw [hexit]
    exact hset fun _ => rfl
  | flag call' _ | exitThread call' _ _ | exitNone call' _ _ | join call' _ _ =>
    exact hset fun _ => rfl
  | advance call' pc _ hpc =>
    refine hset fun _ => ?_
    cases pc <;> first | rfl | cases hpc

/-- The flag is set, by this call or before it, and the network thread is well. -/
structure Stopping (call : ℕ) (s : NetworkEngine) : Prop where
  reachable : engineLts.Reachable s
  flagged : (s.calls call).isFlagged = true
  network : s.network ≠ .faulted

theorem Stopping.exit (h : Stopping call s) : s.recvThreadExit = true :=
  (control_of_reachable h.reachable).flag call h.flagged

theorem network_start (s : NetworkEngine) (callback : Option EngineJob)
    (h : s.network ≠ .faulted) : (s.start callback).network ≠ .faulted := by
  rcases (queue_start s callback).2.2 with hsame | hstarting
  · rw [hsame]
    exact h
  · rw [hstarting]
    simp

/-- Only a callback that throws makes the network thread fault. -/
theorem network_step {l : EngineLabel} (hl : l.InStop call) (h : s.network ≠ .faulted) :
    (update l s).network ≠ .faulted := by
  cases l with
  | post | stopTest | stopFlag | throw | callback => cases hl
  | stopJoin _ | stopReturn _ => exact h
  | stopExit _ =>
    simp only [update, stopExit]
    split <;> exact h
  | stopPost _ =>
    simp only [update, stopPost]
    split <;> exact h
  | take =>
    simp only [update]
    split
    · exact h
    · simp
  | begin =>
    simp only [update]
    split
    · rename_i job htaken
      cases job with
      | incoming k stream =>
        simp only [NetworkEngine.begin]
        split <;> simp
      | start => exact network_start _ _ (by simp)
      | _ => simp [NetworkEngine.begin]
    · exact h
  | startPost =>
    simp only [update]
    split
    · rename_i callback _
      cases callback <;> simp [NetworkEngine.startPost]
    · exact h
  | finish =>
    simp only [update]
    split
    · simp [NetworkEngine.finish]
    · exact h
  | recvStart | recvTimeout | recvWake => exact h
  | recvLoop =>
    simp only [update, recvLoop]
    split
    · exact h
    · split <;> exact h
  | receiveFrame frame =>
    simp only [update, receiveFrame, receive]
    split <;> exact h
  | receiveError rest =>
    simp only [update, receiveError, receive]
    split <;> exact h
  | recvTest =>
    simp only [update, recvTest]
    split
    · exact h
    · split <;> exact h
  | recvPost =>
    simp only [update, recvPost]
    split
    · exact h
    · split <;> exact h

theorem Stopping.step (h : Stopping call s) {l : EngineLabel} (hl : l.InStop call)
    (hg : guard l s) : Stopping call (update l s) where
  reachable := h.reachable.next hg trivial
  flagged := flagged_step (control_step hg) h.flagged h.exit
  network := network_step hl h.network

/-! ## The rank falls -/

theorem rank_setCall (pc : StopPc) (hpc : pc.rank < (s.calls call).rank) :
    (s.setCall call pc).stopRank call < s.stopRank call := by
  simp only [stopRank, NetworkEngine.setCall, Function.update_self]
  omega

theorem rank_start (s : NetworkEngine) (callback : Option EngineJob) (call : ℕ) :
    (s.start callback).stopRank call + s.network.rank ≤ s.stopRank call + 4 ∨
      (s.start callback).stopRank call = s.stopRank call := by
  unfold start
  split
  · exact Or.inr rfl
  · refine Or.inl ?_
    simp only [stopRank, NetworkPc.rank_starting]
    omega

theorem rank_begin {job : EngineJob} (htaken : s.network = .taken job) :
    (s.begin job).stopRank call < s.stopRank call := by
  cases job with
  | incoming k stream =>
    have hincoming : (s.incoming stream).recv = s.recv ∧
        (s.incoming stream).queue = s.queue ∧ (s.incoming stream).calls = s.calls := by
      unfold incoming
      split
      · exact ⟨rfl, rfl, rfl⟩
      · split <;> exact ⟨rfl, rfl, rfl⟩
    rcases hincoming with ⟨hrecv, hqueue, hcalls⟩
    simp only [NetworkEngine.begin]
    split
    · simp only [stopRank, htaken, hrecv, hqueue, hcalls, NetworkPc.rank]
      omega
    · simp only [stopRank, htaken, NetworkPc.rank]
      omega
  | start =>
    have hidle : ({ s with network := .idle } : NetworkEngine).stopRank call + 5 =
        s.stopRank call := by
      simp only [stopRank, htaken, NetworkPc.rank]
      omega
    have hstart := rank_start { s with network := .idle } none call
    rw [NetworkPc.rank_idle] at hstart
    simp only [NetworkEngine.begin]
    omega
  | stop call' =>
    have hcall : ((s.begin (.stop call')).calls call).rank ≤ (s.calls call).rank := by
      simp only [NetworkEngine.begin]
      by_cases hcall : call = call'
      · subst hcall
        rw [Function.update_self]
        split
        · rename_i hwaiting
          rw [hwaiting]
          decide
        · exact Nat.le_refl _
      · rw [Function.update_of_ne hcall]
    have hrest : (s.begin (.stop call')).recv = s.recv ∧
        (s.begin (.stop call')).queue = s.queue ∧ (s.begin (.stop call')).network = .idle :=
      ⟨rfl, rfl, rfl⟩
    rcases hrest with ⟨hrecv, hqueue, hnetwork⟩
    simp only [stopRank, htaken, hrecv, hqueue, hnetwork, NetworkPc.rank]
    omega
  | registerEndpoint id endpoint | doInitialize connects | other =>
    simp only [stopRank, NetworkEngine.begin, registerEndpoint, htaken, NetworkPc.rank]
    omega

theorem rank_startPost (hinv : EngineControl.ControlInv s.control) {callback : Option EngineJob}
    (hnetwork : s.network = .starting callback) :
    (s.startPost callback).stopRank call < s.stopRank call := by
  have hrecv : s.recv = .none := by
    refine hinv.starting ?_
    simp [control, hnetwork, NetworkPc.isStarting]
  have hposted : (s.startPost callback).recv.rank ≤ 2 := by
    simp only [startPost]
    split
    · rw [hrecv]
      decide
    · decide
  have hleft : (s.startPost callback).network.rank ≤ 1 := by
    cases callback <;> simp [startPost, NetworkPc.rank]
  have hrest : (s.startPost callback).queue = s.queue ∧ (s.startPost callback).calls = s.calls :=
    ⟨rfl, rfl⟩
  simp only [stopRank, hrest.1, hrest.2, hnetwork, NetworkPc.rank_starting]
  omega

theorem rank_finish {job : EngineJob} (hnetwork : s.network = .running job) :
    (s.finish .idle job).stopRank call < s.stopRank call := by
  have hrecv : (s.finish .idle job).recv.rank ≤ s.recv.rank := by
    simp only [finish]
    split
    · split
      · rename_i hwait
        simp [hwait, RecvPc.rank]
      · exact Nat.le_refl _
    · exact Nat.le_refl _
  have hrest : (s.finish .idle job).queue = s.queue ∧ (s.finish .idle job).calls = s.calls ∧
      (s.finish .idle job).network = .idle := ⟨rfl, rfl, rfl⟩
  simp only [stopRank, hrest.1, hrest.2.1, hrest.2.2, hnetwork, NetworkPc.rank]
  omega

/-- `RecvThread` moves on, and the rest is where it was. -/
theorem rank_recv {pc : RecvPc} (pc' : RecvPc) (hpc : s.recv = pc) (hrecv : s'.recv = pc')
    (hrank : pc'.rank < pc.rank) (hnetwork : s'.network = s.network) (hqueue : s'.queue = s.queue)
    (hcalls : s'.calls = s.calls) : s'.stopRank call < s.stopRank call := by
  simp only [stopRank, hpc, hrecv, hnetwork, hqueue, hcalls]
  omega

/-- With the flag set, each of these steps is one of the last. -/
theorem Stopping.rank_lt (h : Stopping call s) {l : EngineLabel} (hl : l.InStop call)
    (hg : guard l s) : (update l s).stopRank call < s.stopRank call := by
  have hexit := h.exit
  cases l with
  | post | stopTest | stopFlag | throw | callback => cases hl
  | stopExit call' =>
    rcases hl with rfl
    have hcall : s.calls call' = .flagged := hg
    simp only [update, stopExit]
    split
    · exact rank_setCall .joining (by rw [hcall]; decide)
    · exact rank_setCall .joined (by rw [hcall]; decide)
  | stopJoin call' =>
    rcases hl with rfl
    exact rank_setCall .joined (by rw [hg.1]; decide)
  | stopPost call' =>
    rcases hl with rfl
    have hcall : s.calls call' = .joined := hg
    simp only [update, stopPost]
    split
    · exact rank_setCall (.returned .refused) (by rw [hcall]; decide)
    · -- the message is in the queue, and the call has to wait for it
      simp only [stopRank, NetworkEngine.setCall, Function.update_self, List.length_append,
        List.length_singleton, hcall, StopPc.rank]
      omega
  | stopReturn call' =>
    rcases hl with rfl
    have hcall : s.calls call' = .done := hg
    exact rank_setCall (.returned .finished) (by rw [hcall]; decide)
  | take =>
    simp only [update]
    split
    · rename_i hqueue
      exact absurd hqueue hg.2
    · rename_i job jobs hqueue
      simp only [stopRank, hqueue, hg.1, List.length_cons, NetworkPc.rank]
      omega
  | begin =>
    simp only [update]
    split
    · rename_i job htaken
      exact rank_begin htaken
    · rename_i hnot
      cases hnetwork : s.network with
      | taken job => exact absurd hnetwork (hnot job)
      | _ => simp [guard, hnetwork, NetworkPc.isTaken] at hg
  | startPost =>
    simp only [update]
    split
    · rename_i callback hnetwork
      exact rank_startPost (control_of_reachable h.reachable) hnetwork
    · rename_i hnot
      cases hnetwork : s.network with
      | starting callback => exact absurd hnetwork (hnot callback)
      | _ => simp [guard, hnetwork, NetworkPc.isStarting] at hg
  | finish =>
    simp only [update]
    split
    · rename_i job hnetwork
      exact rank_finish hnetwork
    · rename_i hnot
      cases hnetwork : s.network with
      | running job => exact absurd hnetwork (hnot job)
      | _ => simp [guard, hnetwork, NetworkPc.isRunning] at hg
  | recvStart => exact rank_recv .loop hg rfl (by decide) rfl rfl rfl
  | recvLoop =>
    simp only [update, recvLoop, hexit, if_true]
    exact rank_recv .returned hg rfl (by decide) rfl rfl rfl
  | receiveFrame frame =>
    simp only [update, receiveFrame, receive]
    split <;> exact rank_recv .got hg rfl (by decide) rfl rfl rfl
  | receiveError rest =>
    simp only [update, receiveError, receive]
    split <;> exact rank_recv .loop hg rfl (by decide) rfl rfl rfl
  | recvTest =>
    simp only [update, recvTest, hexit, if_true]
    split <;> exact rank_recv .loop hg rfl (by decide) rfl rfl rfl
  | recvPost =>
    have hrecv : s.recv = .passed := hg
    have hbytes := (ledger_of_reachable h.reachable).tested (by rw [hrecv]; rfl)
    simp only [update, recvPost]
    split
    · rename_i hnone
      simp [argBytes, hnone] at hbytes
    · split
      · exact rank_recv .loop hrecv rfl (by decide) rfl rfl rfl
      · simp only [stopRank, hrecv, List.length_append, List.length_singleton, RecvPc.rank]
        omega
  | recvTimeout =>
    have hcan : s.canTimeout = true := hg
    cases hrecv : s.recv with
    | waiting k => exact rank_recv .loop hrecv rfl (by simp [RecvPc.rank]) rfl rfl rfl
    | _ => simp [canTimeout, hrecv] at hcan
  | recvWake => exact rank_recv .loop hg rfl (by decide) rfl rfl rfl

theorem stopRank_le (hsize : s.queue.length ≤ maxQueue) (call : ℕ) : s.stopRank call ≤ 179 := by
  have hrecv : s.recv.rank ≤ 12 := by cases s.recv <;> simp [RecvPc.rank]
  have hnetwork : s.network.rank ≤ 5 := by cases s.network <;> simp [NetworkPc.rank]
  have hcall : (s.calls call).rank ≤ 12 := by cases s.calls call <;> simp [StopPc.rank]
  simp only [maxQueue] at hsize
  simp only [stopRank]
  omega

/-! ## Where everything rests -/

theorem network_of_settled (hsettled : engineLts.Settled (EngineLabel.InStop call) s)
    (hnetwork : s.network ≠ .faulted) : s.network = .idle ∧ s.queue = [] := by
  have hidle : s.network = .idle := by
    cases hpc : s.network with
    | idle => rfl
    | faulted => exact absurd hpc hnetwork
    | taken job =>
      refine absurd ?_ (hsettled .begin trivial)
      show s.network.isTaken = true
      rw [hpc]
      rfl
    | running job =>
      refine absurd ?_ (hsettled .finish trivial)
      show s.network.isRunning = true
      rw [hpc]
      rfl
    | starting callback =>
      refine absurd ?_ (hsettled .startPost trivial)
      show s.network.isStarting = true
      rw [hpc]
      rfl
  refine ⟨hidle, ?_⟩
  by_contra hqueue
  exact hsettled .take trivial ⟨hidle, hqueue⟩

theorem recv_of_settled (hsettled : engineLts.Settled (EngineLabel.InStop call) s)
    (hidle : s.network = .idle) : s.recv = .none ∨ s.recv = .returned := by
  cases hpc : s.recv with
  | none => exact Or.inl rfl
  | returned => exact Or.inr rfl
  | posted => exact absurd hpc (hsettled .recvStart trivial)
  | loop => exact absurd hpc (hsettled .recvLoop trivial)
  | receive => exact absurd hpc (hsettled (.receiveError ⟨.make 0 0, []⟩) trivial)
  | got => exact absurd hpc (hsettled .recvTest trivial)
  | passed => exact absurd hpc (hsettled .recvPost trivial)
  | woken => exact absurd hpc (hsettled .recvWake trivial)
  | waiting k =>
    -- nothing is being executed, so the wait can end
    refine absurd ?_ (hsettled .recvTimeout trivial)
    show s.canTimeout = true
    simp [canTimeout, hpc, handling, hidle, NetworkPc.job]

theorem Stopping.returned (h : Stopping call s)
    (hsettled : engineLts.Settled (EngineLabel.InStop call) s) :
    ∃ how, s.calls call = .returned how := by
  have hnetwork := network_of_settled hsettled h.network
  have hrecv := recv_of_settled hsettled hnetwork.1
  have hflagged := h.flagged
  cases hcall : s.calls call with
  | returned how => exact ⟨how, rfl⟩
  | idle | tested =>
    rw [hcall] at hflagged
    cases hflagged
  | flagged => exact absurd hcall (hsettled (.stopExit call) rfl)
  | joining => exact absurd ⟨hcall, hrecv⟩ (hsettled (.stopJoin call) rfl)
  | joined => exact absurd hcall (hsettled (.stopPost call) rfl)
  | done => exact absurd hcall (hsettled (.stopReturn call) rfl)
  | waiting =>
    rcases (queue_of_reachable h.reachable).waiting call hcall with htaken | hmem
    · rw [hnetwork.1] at htaken
      cases htaken
    · rw [hnetwork.2] at hmem
      cases hmem

end NetworkEngine

/-- **`Stop` returns.** Once a call of `Stop` from another thread has set the flag, or
found it set, the call, the receive thread and the network thread make 179 steps at
most, as long as no callback throws, nobody posts and the callbacks call nothing. When
they can make no more, the call has returned. -/
theorem engine_stop_returns {s s' : NetworkEngine} (hr : engineLts.Reachable s) {call : ℕ}
    (hflagged : (s.calls call).isFlagged = true) (hnetwork : s.network ≠ .faulted)
    {ls : List EngineLabel} (hrun : engineLts.Run s ls s') (hls : ∀ l ∈ ls, l.InStop call) :
    ls.length ≤ 179 ∧ (engineLts.Settled (EngineLabel.InStop call) s' →
      ∃ how, s'.calls call = .returned how) := by
  have hstart : NetworkEngine.Stopping call s := ⟨hr, hflagged, hnetwork⟩
  constructor
  · have hbound : ls.length + s'.stopRank call ≤ s.stopRank call :=
      hrun.length_add_rank_le (P := NetworkEngine.Stopping call)
        (fun l s hl hg h => ⟨h.step hl hg, h.rank_lt hl hg⟩) hls hstart
    have hrank := NetworkEngine.stopRank_le (NetworkEngine.queue_of_reachable hr).size call
    omega
  · intro hsettled
    have hend := hrun.preserves (P := NetworkEngine.Stopping call)
      (fun l s hl hg h => h.step hl hg) hls hstart
    exact hend.returned hsettled

/-- `Stop` sets the flag while `RecvThread` waits for a datagram to be handled; the
network thread does not come to it in time. -/
theorem engine_stop_returns_run : ∃ s s' : NetworkEngine, ∃ ls : List EngineLabel,
    s.recv = .waiting 0 ∧ s'.calls 0 = .returned .finished ∧ s'.fates = [.expired] ∧
      (ls.length ≤ 179 ∧ (engineLts.Settled (EngineLabel.InStop 0) s' →
        ∃ how, s'.calls 0 = .returned how)) := by
  have hrun : ((engineLts.execWhen Lts.always NetworkEngine.initial
      [.post .start, .take, .begin, .startPost, .recvStart, .recvLoop,
        .receiveFrame ⟨⟨0xAA55, 7, 0, 2⟩, [1, 2]⟩, .recvTest, .recvPost, .stopTest 0,
        .stopFlag 0]).any
      fun s => (s.calls 0 = .flagged && s.network = .idle) && s.recv = .waiting 0 &&
        (engineLts.execWhen Lts.always s
          [.stopExit 0, .recvTimeout, .recvLoop, .stopJoin 0, .stopPost 0, .take, .begin, .take,
            .begin, .stopReturn 0]).any
          fun s' => s'.calls 0 = .returned .finished && s'.fates = [.expired]) = true := by
    decide +kernel
  rcases (Option.any_eq_true _ _).mp hrun with ⟨s, hs, hp⟩
  simp only [Bool.and_eq_true, decide_eq_true_eq] at hp
  rcases hp with ⟨⟨⟨hcall, hnetwork⟩, hrecv⟩, hnext⟩
  rcases Lts.exec_labelled engineLts s _ _ hnext with ⟨s', hrun', hp'⟩
  simp only [Bool.and_eq_true, decide_eq_true_eq] at hp'
  have hr : engineLts.Reachable s := ⟨NetworkEngine.initial, rfl, Lts.execWhen_steps _ hs⟩
  have hflagged : (s.calls 0).isFlagged = true := by
    rw [hcall]
    rfl
  refine ⟨s, s', _, hrecv, hp'.1, hp'.2,
    engine_stop_returns hr hflagged (by rw [hnetwork]; simp) hrun' ?_⟩
  simp [EngineLabel.InStop]

end AsyncSqlite
