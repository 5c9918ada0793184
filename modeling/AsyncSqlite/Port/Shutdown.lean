import AsyncSqlite.Lts.Run
import AsyncSqlite.Thread.Drain
import AsyncSqlite.Port.FreeRtosHistory
import AsyncSqlite.Port.Win32History

/-!
# AsyncSqlite.Port.Shutdown — what `ExitThread` leaves behind

`DrainsOnExit` is what the ports should agree on: when `ExitThread` is about to
return, every accepted message has been invoked once, and it is never invoked
again. The stdlib port does so in every run. The other two let messages go:

* win32 pushes the exit message behind the messages of high priority, so those
  of normal priority stay queued for the next life of the thread;
* FreeRTOS sets `m_exit` before the exit message is sent, and the loop tests it
  before every receive, so the backlog is deleted.
-/

namespace AsyncSqlite

universe u v

/-- In a state in which `exited` holds, and in every later one, each message
that was accepted then has been invoked exactly once. -/
def DrainsOnExit {σ : Type u} {ι : Type v} (M : Lts σ ι) (ok : ι → σ → Prop)
    (accepted invoked : σ → List DelegateMsg) (exited : σ → Prop) : Prop :=
  ∀ s, M.ReachableWhen ok s → exited s → ∀ m ∈ accepted s, m.invoker = true →
    ∀ s', M.StepsWhen ok s s' → (invoked s').count m = 1

/-- Invoked once, the messages stay invoked once. -/
theorem drains_of_count {σ : Type u} {ι : Type v} {M : Lts σ ι} {ok : ι → σ → Prop}
    {accepted invoked : σ → List DelegateMsg} {exited : σ → Prop}
    (hnodup : ∀ s, M.ReachableWhen ok s → (invoked s).Nodup)
    (hgrow : ∀ l s, M.guard l s → (invoked s).Sublist (invoked (M.update l s)))
    (hcount : ∀ s, M.ReachableWhen ok s → exited s → ∀ m ∈ accepted s, m.invoker = true →
      (invoked s).count m = 1) : DrainsOnExit M ok accepted invoked exited := by
  intro s hr hex m hm hinv s' hrun
  have hmem : m ∈ invoked s := by
    rw [← List.count_pos_iff, hcount s hr hex m hm hinv]
    exact Nat.one_pos
  have hmem' : m ∈ invoked s' :=
    hr.preserves (P := fun s => m ∈ invoked s) (fun l s _ hg _ h => (hgrow l s hg).subset h) hrun
      hmem
  exact List.count_eq_one_of_mem (hnodup s' (hr.steps hrun)) hmem'

/-! ## stdlib -/

namespace ThreadState

theorem stdlib_drains (cfg : Config) :
    DrainsOnExit (threadLts cfg) Joined ThreadState.pushed ThreadState.invoked
      fun s => ∃ t, s.control = .exitReset t := by
  refine drains_of_count ?_ ?_ ?_
  · intro s hr
    exact (history_of_reachable hr).invoked_nodup.of_map
  · intro l s hg
    have heff : Effect cfg l s ((threadLts cfg).update l s) := step_effect cfg hg
    rcases invoked_of_step heff with heq | ⟨w, x, m, -, -, -, heq⟩
    · rw [heq]
    · rw [heq]
      exact List.sublist_append_left _ _
  · rintro s hr ⟨t, hcon⟩ m hm hinv
    exact count_invoked_of_exitReset hr hcon hm hinv

end ThreadState

/-! ## win32 -/

namespace Win32Thread

variable {cfg : Config} {l : Win32Label} {s s' : Win32Thread}

/-- `ExitThread` pushes its message while no message of normal priority is
queued. -/
def NormalEmpty (l : Win32Label) (s : Win32Thread) : Prop :=
  l = .exitPush → s.normalQueue = []

instance (l : Win32Label) (s : Win32Thread) : Decidable (NormalEmpty l s) :=
  inferInstanceAs (Decidable (_ → _))

def IsDelegate (m : ThreadMsg) : Prop := ∃ d, m = .delegate d

/-- The worker is in its loop and holds no exit message. -/
structure Running (s : Win32Thread) : Prop where
  started : s.process ≠ .notStarted
  live : s.process ≠ .finished
  hand : ∀ m, s.process = .got m → IsDelegate m

theorem Running.of_process (h : s.Running) (hp : s'.process = s.process) : s'.Running := by
  refine ⟨?_, ?_, ?_⟩
  · rw [hp]
    exact h.started
  · rw [hp]
    exact h.live
  · intro m hm
    rw [hp] at hm
    exact h.hand m hm

/-- A worker that has just taken a delegate message. -/
theorem Running.of_got {m : ThreadMsg} (hp : s.process = .got m) (hm : IsDelegate m) :
    s.Running := by
  refine ⟨by simp [hp], by simp [hp], ?_⟩
  intro x hx
  rw [hp] at hx
  exact WorkerPc.got.inj hx ▸ hm

/-- The exit message is queued behind messages of high priority, or the worker
has taken it. -/
def ExitQueued (s : Win32Thread) : Prop :=
  (∃ front, s.highQueue = front ++ [.exit] ∧ (∀ m ∈ front, IsDelegate m) ∧ s.Running) ∨
    s.highQueue = [] ∧ (s.process = .got .exit ∨ s.process = .finished)

structure ExitInv (s : Win32Thread) : Prop where
  queues : s.control ≠ .exitWait → ∀ m ∈ s.highQueue ++ s.normalQueue, IsDelegate m
  running : s.control ≠ .exitWait → s.control ≠ .exitClose → s.handle = true → s.Running
  waiting : s.control = .exitWait → s.normalQueue = [] ∧ ExitQueued s
  closing : s.control = .exitClose → s.highQueue = [] ∧ s.normalQueue = []

theorem ExitInv.initial : ExitInv initial :=
  ⟨by simp [Win32Thread.initial], by simp [Win32Thread.initial], by simp [Win32Thread.initial],
    by simp [Win32Thread.initial]⟩

theorem LifeInv.exit_eq (hl : LifeInv s) (hcon : s.control = .exitWait ∨ s.control = .exitClose) :
    s.exit = true := by
  have hc := hl.control
  rcases hcon with hcon | hcon
  · simp only [ControlInv, hcon] at hc
    exact hc.2
  · simp only [ControlInv, hcon] at hc
    exact hc.2.1

theorem LifeInv.exit_clear (hl : LifeInv s) (hwait : s.control ≠ .exitWait)
    (hclose : s.control ≠ .exitClose) (hh : s.handle = true) : s.exit = false := by
  have hc := hl.control
  cases hcon : s.control with
  | idle =>
    simp only [ControlInv, hcon] at hc
    exact hc hh
  | createSpawn | createStart | exitPush =>
    simp only [ControlInv, hcon] at hc
    exact hc.2
  | exitWait => exact absurd hcon hwait
  | exitClose => exact absurd hcon hclose

/-- A running worker goes on running while there is something to take or
`m_exit` is clear. -/
theorem ProcessMove.running {pc : WorkerPc} (h : ProcessMove s pc) (hs : s.Running)
    (hexit : s.highQueue = [] → s.exit = false) :
    ({ s with process := pc } : Win32Thread).Running := by
  cases h with
  -- the loop is left on `m_exit` only when both queues are empty
  | quit hw hhigh hnormal hset =>
    rw [hexit hhigh] at hset
    cases hset
  | exitMsg m hp ht hid =>
    rcases hs.hand m hp with ⟨d, rfl⟩
    cases hid
  | _ => exact ⟨by simp, by simp, by simp⟩

theorem ExitInv.move {pc : WorkerPc} (h : ProcessMove s pc) (hl : LifeInv s) (hi : ExitInv s) :
    ExitInv { s with process := pc } := by
  refine ⟨hi.queues, ?_, ?_, hi.closing⟩
  · intro hwait hclose hh
    exact h.running (hi.running hwait hclose hh) fun _ => hl.exit_clear hwait hclose hh
  · intro hwait
    rcases hi.waiting hwait with ⟨hnormal, ⟨front, hhigh, hfront, hrun⟩ | ⟨hhigh, hp⟩⟩
    · have hrun' := h.running hrun fun hempty => by simp [hhigh] at hempty
      exact ⟨hnormal, Or.inl ⟨front, hhigh, hfront, hrun'⟩⟩
    · refine ⟨hnormal, Or.inr ⟨hhigh, ?_⟩⟩
      rcases hp with hp | hp
      · cases h with
        | exitMsg => exact Or.inr rfl
        | noInvoker m hm ht hid =>
          rw [hp] at hm
          cases hm
          exact absurd rfl hid
        | _ => simp_all
      · exact absurd hp h.alive.2.1

theorem ExitInv.popHigh (hi : ExitInv s) {m : ThreadMsg} {rest : List ThreadMsg}
    (hq : s.highQueue = m :: rest) : ExitInv { s.take m with highQueue := rest } := by
  refine ⟨?_, ?_, ?_, ?_⟩
  · intro hwait x hx
    refine hi.queues hwait x ?_
    rw [hq]
    exact List.mem_cons_of_mem m hx
  · intro hwait _ _
    exact .of_got rfl (hi.queues hwait m (by simp [hq]))
  · intro hwait
    rcases hi.waiting hwait with ⟨hnormal, ⟨front, hhigh, hfront, -⟩ | ⟨hhigh, -⟩⟩
    · refine ⟨hnormal, ?_⟩
      rw [hq] at hhigh
      cases front with
      -- the exit message is the next one
      | nil =>
        have hm : m = .exit := (List.cons.inj hhigh).1
        exact Or.inr ⟨(List.cons.inj hhigh).2, Or.inl (by rw [hm]; rfl)⟩
      | cons a front =>
        have hm : IsDelegate m := by
          rw [(List.cons.inj hhigh).1]
          exact hfront a List.mem_cons_self
        exact Or.inl ⟨front, (List.cons.inj hhigh).2,
          fun x hx => hfront x (List.mem_cons_of_mem a hx), .of_got rfl hm⟩
    · rw [hq] at hhigh
      cases hhigh
  · intro hclose
    have hnil := (hi.closing hclose).1
    rw [hq] at hnil
    cases hnil

theorem ExitInv.popNormal (hi : ExitInv s) {m : ThreadMsg} {rest : List ThreadMsg}
    (hhigh : s.highQueue = []) (hq : s.normalQueue = m :: rest) :
    ExitInv { s.take m with normalQueue := rest } := by
  refine ⟨?_, ?_, ?_, ?_⟩
  · intro hwait x hx
    refine hi.queues hwait x ?_
    have hx' : x ∈ s.highQueue ++ rest := hx
    rw [hhigh, List.nil_append] at hx'
    rw [hhigh, hq]
    exact List.mem_cons_of_mem m hx'
  · intro hwait _ _
    exact .of_got rfl (hi.queues hwait m (by simp [hq]))
  · intro hwait
    have hnil := (hi.waiting hwait).1
    rw [hq] at hnil
    cases hnil
  · intro hclose
    have hnil := (hi.closing hclose).2
    rw [hq] at hnil
    cases hnil

theorem ExitInv.accept (hi : ExitInv s) (hl : LifeInv s) (hexit : s.exit = false)
    (m : DelegateMsg) : ExitInv (s.accept m) := by
  have hset : ¬ (s.control = .exitWait ∨ s.control = .exitClose) := by
    intro hcon
    rw [hl.exit_eq hcon] at hexit
    cases hexit
  refine ⟨?_, ?_, fun hwait => absurd (Or.inl hwait) hset,
    fun hclose => absurd (Or.inr hclose) hset⟩
  · intro hwait x hx
    rcases mem_accept hx with rfl | hx
    · exact ⟨m, rfl⟩
    · exact hi.queues hwait x hx
  · intro hwait hclose hh
    exact (hi.running hwait hclose hh).of_process rfl

theorem ExitInv.step (h : Effect l s s') (hok : NormalEmpty l s) (hl : LifeInv s)
    (hi : ExitInv s) : ExitInv s' := by
  cases h with
  | stutter => exact hi
  | beginCreate hcon hh =>
    have hqueues := hi.queues (by simp [hcon])
    exact ⟨fun _ => hqueues, by simp [hh], by simp, by simp⟩
  | spawn hcon =>
    have hqueues := hi.queues (by simp [hcon])
    exact ⟨fun _ => hqueues, fun _ _ _ => ⟨by simp, by simp, by simp⟩, by simp, by simp⟩
  | started hcon | beginExit hcon =>
    have hqueues := hi.queues (by simp [hcon])
    have hrunning := hi.running (by simp [hcon]) (by simp [hcon])
    exact ⟨fun _ => hqueues, fun _ _ hh => (hrunning hh).of_process rfl, by simp, by simp⟩
  | pushExit hlab hcon =>
    -- everything in front of the exit message is a delegate message of high priority
    have hqueues := hi.queues (by simp [hcon])
    have hc := hl.control
    simp only [ControlInv, hcon] at hc
    have hrun := hi.running (by simp [hcon]) (by simp [hcon]) hc.1
    refine ⟨by simp, by simp, fun _ => ⟨hok hlab, Or.inl ⟨s.highQueue, rfl, ?_, ?_⟩⟩, by simp⟩
    · exact fun m hm => hqueues m (List.mem_append_left _ hm)
    · exact hrun.of_process rfl
  | waited hcon hp =>
    -- a worker that is done has taken the exit message, and nothing is behind it
    rcases hi.waiting hcon with ⟨hnormal, ⟨front, -, -, hrun⟩ | ⟨hhigh, -⟩⟩
    · exact absurd hp hrun.live
    · exact ⟨by simp [hhigh, hnormal], by simp, by simp, fun _ => ⟨hhigh, hnormal⟩⟩
  | close hcon =>
    have hempty := hi.closing hcon
    exact ⟨by simp [hempty.1, hempty.2], by simp, by simp, by simp⟩
  | dispatch m pc hm =>
    refine ⟨hi.queues, fun hwait hclose hh => ?_, fun hwait => ?_, hi.closing⟩
    · exact (hi.running hwait hclose hh).of_process rfl
    · rcases hi.waiting hwait with ⟨hnormal, ⟨front, hhigh, hfront, hrun⟩ | hhigh⟩
      · exact ⟨hnormal, Or.inl ⟨front, hhigh, hfront, hrun.of_process rfl⟩⟩
      · exact ⟨hnormal, Or.inr hhigh⟩
  | accept m hm hexit => exact hi.accept hl hexit m
  | move pc hm => exact hi.move hm hl
  | popHigh m rest hw hq => exact hi.popHigh hq
  | popNormal m rest hw hhigh hq => exact hi.popNormal hhigh hq
  | invoke m d hp hd =>
    have hrun : ({ s with process := .invoking d, invoked := s.invoked ++ [d] } :
        Win32Thread).Running := ⟨by simp, by simp, by simp⟩
    refine ⟨hi.queues, fun _ _ _ => hrun, fun hwait => ?_, hi.closing⟩
    rcases hi.waiting hwait with ⟨hnormal, ⟨front, hhigh, hfront, -⟩ | ⟨hhigh, hp'⟩⟩
    · exact ⟨hnormal, Or.inl ⟨front, hhigh, hfront, hrun⟩⟩
    · -- the exit message has no target, so it is never invoked
      rcases hp' with hp' | hp'
      · rw [hp] at hp'
        have hm : m = .exit := WorkerPc.got.inj hp'
        rw [hm] at hd
        cases hd
      · rw [hp] at hp'
        cases hp'

theorem exit_of_reachable (hr : (win32Lts cfg).ReachableWhen NormalEmpty s) : ExitInv s := by
  refine hr.induct (P := ExitInv) ?_ ?_
  · rintro s rfl
    exact .initial
  · intro l s hr hg hok hi
    exact hi.step (step_effect cfg hg) hok (life_of_reachable hr)

theorem win32_drains (cfg : Config) :
    DrainsOnExit (win32Lts cfg) NormalEmpty Win32Thread.accepted Win32Thread.invoked
      fun s => s.control = .exitClose := by
  refine drains_of_count ?_ ?_ ?_
  · intro s hr
    exact (history_of_reachable hr).ledger.invoked_nodup
  · intro l s hg
    have heff : Effect l s ((win32Lts cfg).update l s) := step_effect cfg hg
    generalize (win32Lts cfg).update l s = s' at heff
    cases heff with
    | invoke => exact List.sublist_append_left _ _
    | _ => exact List.Sublist.refl _
  · intro s hr hcon m hm hinv
    have hempty := (exit_of_reachable hr).closing hcon
    have hc := (life_of_reachable hr).control
    simp only [ControlInv, hcon] at hc
    have hqueued : s.queued = [] := by simp [queued, hempty.1, hempty.2]
    have hhand : ThreadState.inHand s.process = [] := by simp [hc.2.2, ThreadState.inHand]
    exact (history_of_reachable hr).ledger.count_invoked hqueued hhand rfl hm hinv

end Win32Thread

/-! ## FreeRTOS -/

namespace FreeRtosThread

variable {cfg : Config} {l : RtosLabel} {s s' : FreeRtosThread}

/-- `ExitThread` finds the queue empty, or one message in it that the task is
about to receive. -/
def BacklogTaken (l : RtosLabel) (s : FreeRtosThread) : Prop :=
  l = .exitThread → s.messages = [] ∨ s.messages.length = 1 ∧ s.task = .receive

instance (l : RtosLabel) (s : FreeRtosThread) : Decidable (BacklogTaken l s) :=
  inferInstanceAs (Decidable (_ → _))

/-- No delegate message is queued, or one, at the front, and the task is in
`xQueueReceive`. -/
def Handed (s : FreeRtosThread) : Prop :=
  s.queued = [] ∨ s.task = .receive ∧
    ∃ m rest, s.messages = m :: rest ∧ rest.filterMap (·.data) = []

structure ExitInv (s : FreeRtosThread) : Prop where
  leaving : s.exiting → Handed s
  kept : s.cleared = []

theorem ExitInv.initial : ExitInv initial :=
  ⟨fun _ => Or.inl rfl, rfl⟩

/-- Away from `xQueueReceive` nothing is queued. -/
theorem Handed.queued_eq (h : Handed s) (htask : s.task ≠ .receive) : s.queued = [] := by
  rcases h with h | ⟨hreceive, -⟩
  · exact h
  · exact absurd hreceive htask

theorem TaskMove.handed {pc : RtosPc} (h : TaskMove s pc) (hs : Handed s) :
    Handed { s with task := pc } := by
  rcases hs with hempty | ⟨htask, m, rest, hmsgs, -⟩
  · exact Or.inl hempty
  · cases h with
    | timeout _ hnil =>
      rw [hmsgs] at hnil
      cases hnil
    | leave hp | receive hp | exitMsg m hp | noInvoker m hp | returned m hp | threw m hp =>
      rw [htask] at hp
      cases hp

theorem cleared_pop (s : FreeRtosThread) (m : ThreadMsg) :
    ((s.removed ++ m.data.toList.map (·, Removal.popped)).filter (·.2 = .cleared)).map Prod.fst =
      s.cleared := by
  cases m.data <;> simp [cleared]

theorem cleared_exitDrain (s : FreeRtosThread) :
    s.exitDrain.cleared = s.cleared ++ s.queued := by
  simp [cleared, exitDrain, List.filter_map, Function.comp_def]

theorem ExitInv.step (h : Effect cfg l s s') (hok : BacklogTaken l s) (hl : LifeInv s)
    (hi : ExitInv s) : ExitInv s' := by
  cases h with
  | stutter => exact hi
  | create => exact ⟨by simp [exiting], hi.kept⟩
  | task => exact ⟨by simp [exiting, createTask], hi.kept⟩
  | beginExit q hlab hcon hq =>
    refine ⟨fun _ => ?_, hi.kept⟩
    rcases hok hlab with hnil | ⟨hone, htask⟩
    · left
      show s.messages.filterMap (·.data) = []
      rw [hnil]
      rfl
    · rcases List.length_eq_one_iff.mp hone with ⟨m, hm⟩
      exact Or.inr ⟨htask, m, [], hm, rfl⟩
  | sendExit hcon =>
    refine ⟨fun _ => ?_, hi.kept⟩
    rcases hi.leaving (Or.inl hcon) with hempty | ⟨htask, m, rest, hmsgs, hrest⟩
    · left
      rw [queued_exitSend]
      exact hempty
    · refine Or.inr ⟨htask, m, rest ++ [.exit], ?_, by simp [hrest]⟩
      cases hq : s.queue with
      | none => simp [messages, hq] at hmsgs
      | some q =>
        have hq' : q = m :: rest := by simpa [messages, hq] using hmsgs
        simp [messages, exitSend, hq, hq']
  | takeSem hcon hsem =>
    -- the task gives the semaphore last, so it is out of `xQueueReceive` for good
    refine ⟨fun _ => ?_, hi.kept⟩
    have hdeleted := (hl.given hsem).1
    exact Or.inl ((hi.leaving (Or.inr (Or.inl hcon))).queued_eq (by simp [hdeleted]))
  | drain hcon =>
    refine ⟨by simp [exiting, exitDrain], ?_⟩
    have hc := hl.control
    simp only [ControlInv, hcon] at hc
    rw [cleared_exitDrain, hi.kept,
      (hi.leaving (Or.inr (Or.inr hcon))).queued_eq (by simp [hc.1])]
    rfl
  | dispatch m pc hex => exact ⟨fun hex' => absurd hex' hex, hi.kept⟩
  | accept m q hex => exact ⟨fun hex' => absurd hex' hex, hi.kept⟩
  | move pc hm => exact ⟨fun hex => hm.handed (hi.leaving hex), hi.kept⟩
  | pop m rest htask hq =>
    refine ⟨fun hex => Or.inl ?_, (cleared_pop s m).trans hi.kept⟩
    show rest.filterMap (·.data) = []
    rcases hi.leaving hex with hempty | ⟨-, m', rest', hmsgs, hrest⟩
    · rw [queued_pop hq] at hempty
      exact (List.append_eq_nil_iff.mp hempty).2
    · rw [messages_of_queue hq] at hmsgs
      rw [(List.cons.inj hmsgs).2]
      exact hrest
  | invoke m d htask =>
    refine ⟨fun hex => Or.inl ?_, hi.kept⟩
    exact (hi.leaving hex).queued_eq (by simp [htask])
  | give htask =>
    refine ⟨fun hex => Or.inl ?_, hi.kept⟩
    exact (hi.leaving hex).queued_eq (by simp [htask])

theorem exit_of_reachable (hr : (freeRtosLts cfg).ReachableWhen BacklogTaken s) : ExitInv s := by
  refine hr.induct (P := ExitInv) ?_ ?_
  · rintro s rfl
    exact .initial
  · intro l s hr hg hok hi
    exact hi.step (step_effect cfg hg) hok (life_of_reachable hr)

theorem freeRtos_drains (cfg : Config) :
    DrainsOnExit (freeRtosLts cfg) BacklogTaken FreeRtosThread.accepted FreeRtosThread.invoked
      fun s => s.control = .exitDrain := by
  refine drains_of_count ?_ ?_ ?_
  · intro s hr
    exact (history_of_reachable hr).ledger.invoked_nodup
  · intro l s hg
    have heff : Effect cfg l s ((freeRtosLts cfg).update l s) := step_effect cfg hg
    generalize (freeRtosLts cfg).update l s = s' at heff
    cases heff with
    | invoke => exact List.sublist_append_left _ _
    | _ => exact List.Sublist.refl _
  · intro s hr hcon m hm hinv
    have hexit := exit_of_reachable hr
    have hc := (life_of_reachable hr).control
    simp only [ControlInv, hcon] at hc
    have hqueued := (hexit.leaving (Or.inr (Or.inr hcon))).queued_eq (by simp [hc.1])
    have hhand : s.hand = [] := by simp [hand, hc.1]
    exact (history_of_reachable hr).ledger.count_invoked hqueued hhand
      (ThreadState.map_popped_of_cleared hexit.kept).symm hm hinv

end FreeRtosThread

/-! ## The ports -/

/-- **Shutdown.** When `ExitThread` is about to return, every message accepted
until then has been invoked exactly once, and this stays so whatever comes
later, further lives of the thread included: on the stdlib port in every run,
on win32 if `ExitThread` finds no message of normal priority queued, and on
FreeRTOS if it finds no message queued that the task is not about to receive. -/
theorem exit_invokes_accepted (cfg : Config) :
    DrainsOnExit (threadLts cfg) ThreadState.Joined ThreadState.pushed ThreadState.invoked
        (fun s => ∃ t, s.control = .exitReset t) ∧
      DrainsOnExit (win32Lts cfg) Win32Thread.NormalEmpty Win32Thread.accepted
        Win32Thread.invoked (fun s => s.control = .exitClose) ∧
      DrainsOnExit (freeRtosLts cfg) FreeRtosThread.BacklogTaken FreeRtosThread.accepted
        FreeRtosThread.invoked (fun s => s.control = .exitDrain) :=
  ⟨ThreadState.stdlib_drains cfg, Win32Thread.win32_drains cfg, FreeRtosThread.freeRtos_drains cfg⟩

/-- One message of high priority is queued when `ExitThread` begins. -/
def highBacklogRun : List Win32Label :=
  [.createThread, .createSpawn, .processStart, .createStart,
    .dispatchDelegate ⟨0, true, .high⟩, .dispatchLocked ⟨0, true, .high⟩, .exitThread, .exitPush,
    .processLoop, .processTake, .processSwitch (.delegate ⟨0, true, .high⟩),
    .invokeReturn ⟨0, true, .high⟩, .processLoop, .processTake, .processSwitch .exit, .exitWait]

/-- One message is queued when `ExitThread` begins, and the task is about to
receive it. -/
def oneBacklogRun : List RtosLabel :=
  [.createThread, .createTask, .runLoop, .dispatchDelegate ⟨0, true, .normal⟩, .exitThread,
    .exitSend, .runReceive, .runMsg (.delegate ⟨0, true, .normal⟩),
    .invokeReturn ⟨0, true, .normal⟩, .runLoop, .runGive, .exitTake]

theorem exit_invokes_accepted_run :
    (∃ s, (win32Lts ⟨0, .drop⟩).ReachableWhen Win32Thread.NormalEmpty s ∧
      s.control = .exitClose ∧ ⟨0, true, .high⟩ ∈ s.accepted ∧
      s.invoked.count ⟨0, true, .high⟩ = 1) ∧
    ∃ s, (freeRtosLts ⟨0, .drop⟩).ReachableWhen FreeRtosThread.BacklogTaken s ∧
      s.control = .exitDrain ∧ ⟨0, true, .normal⟩ ∈ s.accepted ∧
      s.invoked.count ⟨0, true, .normal⟩ = 1 := by
  constructor
  · obtain ⟨s, hr, hp⟩ := (win32Lts ⟨0, .drop⟩).execWhen_reachable Win32Thread.NormalEmpty rfl
      highBacklogRun (fun s => s.control = .exitClose ∧ ⟨0, true, .high⟩ ∈ s.accepted) (by decide)
    obtain ⟨hcon, hm⟩ : _ ∧ _ := of_decide_eq_true hp
    exact ⟨s, hr, hcon, hm, (exit_invokes_accepted _).2.1 s hr hcon _ hm rfl s .refl⟩
  · obtain ⟨s, hr, hp⟩ := (freeRtosLts ⟨0, .drop⟩).execWhen_reachable
      FreeRtosThread.BacklogTaken rfl oneBacklogRun
      (fun s => s.control = .exitDrain ∧ ⟨0, true, .normal⟩ ∈ s.accepted) (by decide)
    obtain ⟨hcon, hm⟩ : _ ∧ _ := of_decide_eq_true hp
    exact ⟨s, hr, hcon, hm, (exit_invokes_accepted _).2.2 s hr hcon _ hm rfl s .refl⟩

/-- A message of normal priority is queued when `ExitThread` begins. -/
def normalBacklogRun : List Win32Label :=
  [.createThread, .createSpawn, .processStart, .createStart,
    .dispatchDelegate ⟨0, true, .normal⟩, .dispatchLocked ⟨0, true, .normal⟩, .exitThread,
    .exitPush, .processLoop, .processTake, .processSwitch .exit, .exitWait]

/-- The thread is created again. -/
def secondLifeRun : List Win32Label :=
  [.exitClose, .createThread, .createSpawn, .processStart, .createStart, .processLoop, .processTake,
    .processSwitch (.delegate ⟨0, true, .normal⟩)]

/-- Two messages are queued when `ExitThread` begins. -/
def twoBacklogRun : List RtosLabel :=
  [.createThread, .createTask, .dispatchDelegate ⟨0, true, .normal⟩,
    .dispatchDelegate ⟨1, true, .high⟩, .exitThread, .exitSend, .runLoop, .runGive, .exitTake]

/-- On win32 an accepted message is not invoked before `ExitThread` returns but
in the next life of the thread; on FreeRTOS none of the accepted messages is
ever invoked. -/
theorem exit_leaves_accepted :
    (∃ s s', (win32Lts ⟨0, .drop⟩).Reachable s ∧ s.control = .exitClose ∧
      s.accepted = [⟨0, true, .normal⟩] ∧ s.invoked = [] ∧
      (win32Lts ⟨0, .drop⟩).Run s secondLifeRun s' ∧ s'.invoked = [⟨0, true, .normal⟩]) ∧
    ∃ s, (freeRtosLts ⟨0, .drop⟩).Reachable s ∧ s.control = .exitDrain ∧
      s.accepted = [⟨0, true, .normal⟩, ⟨1, true, .high⟩] ∧ s.invoked = [] ∧
      s.exitDrain.messages = [] := by
  constructor
  · obtain ⟨s, hr, hp⟩ := (win32Lts ⟨0, .drop⟩).execWhen_reachable Lts.always rfl normalBacklogRun
      (fun s => s.control = .exitClose ∧ s.accepted = [⟨0, true, .normal⟩] ∧ s.invoked = [] ∧
        (((win32Lts ⟨0, .drop⟩).execWhen Lts.always s secondLifeRun).any fun s' =>
          s'.invoked = [⟨0, true, .normal⟩]) = true) (by decide)
    obtain ⟨hcon, hacc, hinv, hp⟩ : _ ∧ _ ∧ _ ∧ _ := of_decide_eq_true hp
    obtain ⟨s', hrun, hp'⟩ := (win32Lts ⟨0, .drop⟩).exec_labelled s secondLifeRun _ hp
    exact ⟨s, s', hr, hcon, hacc, hinv, hrun, of_decide_eq_true hp'⟩
  · obtain ⟨s, hr, hp⟩ := (freeRtosLts ⟨0, .drop⟩).execWhen_reachable Lts.always rfl twoBacklogRun
      (fun s => s.control = .exitDrain ∧ s.accepted = [⟨0, true, .normal⟩, ⟨1, true, .high⟩] ∧
        s.invoked = [] ∧ s.exitDrain.messages = []) (by decide)
    obtain ⟨hcon, hacc, hinv, hdrained⟩ : _ ∧ _ ∧ _ ∧ _ := of_decide_eq_true hp
    exact ⟨s, hr, hcon, hacc, hinv, hdrained⟩

end AsyncSqlite
