import AsyncSqlite.Lts.Rank
import AsyncSqlite.Port.RtosHistory

/-!
# AsyncSqlite.Port.RtosExit — when `ExitThread` returns, and what is left then

`ExitThread` of the RTOS ports sets `m_exit` first and puts its message afterwards,
waiting for room without a limit. The task tests `m_exit` before every receive, so a
task that is not already in its receive takes no message any more: with a full queue
`ExitThread` hangs for ever (`exitThread_returns_iff`).

Nobody clears `m_exit`. A thread that is created again accepts messages and ends at
once (`restart_invokes_nothing`), and when its queue is full it cannot be exited.
-/

namespace AsyncSqlite

namespace RtosThread

variable {p : RtosPort} {cfg : Config} {l : RtosThreadLabel} {s s' : RtosThread}

/-- Every message has an invoker, as those of delegates do, and no callback throws. Otherwise
the task stays in `FaultHandler`, and `ExitThread` waits for it without end. -/
def Sound (l : RtosThreadLabel) (_ : RtosThread) : Prop :=
  match l with
  | .dispatchDelegate m | .dispatchPut m => m.invoker = true
  | .invokeThrow _ => False
  | _ => True

instance (l : RtosThreadLabel) (s : RtosThread) : Decidable (Sound l s) := by
  cases l <;> dsimp only [Sound] <;> infer_instance

/-- The steps of `ExitThread` and of the task. -/
def ExitStep : RtosThreadLabel → Prop
  | .exitPut | .exitAcquire | .exitCleanUp => True
  | .runLoop | .runGet | .runTimeout | .runMsg _ | .invokeReturn _ | .runGive => True
  | _ => False

instance (l : RtosThreadLabel) : Decidable (ExitStep l) := by
  cases l <;> dsimp only [ExitStep] <;> infer_instance

/-! ## Messages that `Run` can process -/

def Good (m : ThreadMsg) : Prop := m = .exit ∨ ∃ d, m = .delegate d ∧ d.invoker = true

/-- No task has faulted or will. -/
structure SoundInv (cfg : Config) (s : RtosThread) : Prop where
  task : s.task ≠ .faulted
  hand : ∀ m, s.task = .got m → Good m
  queue : ∀ m ∈ s.messages, Good m
  size : s.messages.length ≤ queueSize cfg

theorem SoundInv.initial : SoundInv cfg initial where
  task := by simp [RtosThread.initial]
  hand m hm := by simp [RtosThread.initial] at hm
  queue := by simp [messages, RtosThread.initial]
  size := by simp [messages, RtosThread.initial]

theorem queueSize_pos (cfg : Config) : 0 < queueSize cfg := by
  unfold queueSize
  split
  · decide
  · omega

/-- One message more. -/
theorem SoundInv.enqueue (h : SoundInv cfg s) {m : ThreadMsg} {q : List ThreadMsg} (hm : Good m)
    (hspace : s.hasSpace cfg) (hq : s.messages = q) :
    (∀ x ∈ p.enqueue m q, Good x) ∧ (p.enqueue m q).length ≤ queueSize cfg := by
  subst hq
  have hperm := enqueue_perm p m s.messages
  constructor
  · intro x hx
    rcases List.mem_cons.mp (hperm.subset hx) with rfl | hx
    · exact hm
    · exact h.queue x hx
  · rw [hperm.length_eq, List.length_cons]
    exact hspace

theorem SoundInv.step (h : Effect p cfg l s s') (hok : Sound l s) (hi : SoundInv cfg s) :
    SoundInv cfg s' := by
  cases h with
  | stutter => exact hi
  | create =>
    exact
      { task := by simp
        hand := by simp
        queue := by simp [messages]
        size := by simp [messages] }
  | beginExit | acquire | dispatch => exact { hi with }
  | put hcontrol hspace =>
    cases hq : s.queue with
    | none =>
      exact ⟨hi.task, hi.hand, by simp [messages, exitPut, hq], by simp [messages, exitPut, hq]⟩
    | some q =>
      rcases hi.enqueue (p := p) (Or.inl rfl) hspace (messages_of_queue hq) with ⟨hgood, hsize⟩
      have hmsgs : (s.exitPut p).messages = p.enqueue .exit q := by
        simp [messages, exitPut, hq]
      exact ⟨hi.task, hi.hand, by rwa [hmsgs], by rwa [hmsgs]⟩
  | cleanUp | exitSelf =>
    exact ⟨hi.task, hi.hand, by simp [messages, close], by simp [messages, close]⟩
  | accept m q hidle hlab hm hq hspace =>
    have hinvoker : m.invoker = true := by
      rcases hlab with rfl | rfl
      · exact hok
      · exact hok
    rcases hi.enqueue (p := p) (Or.inr ⟨m, rfl, hinvoker⟩) hspace (messages_of_queue hq) with
      ⟨hgood, hsize⟩
    have hmsgs := messages_accept (p := p) m hq
    exact ⟨hi.task, hi.hand, by rwa [hmsgs], by rwa [hmsgs]⟩
  | move pc hm =>
    refine ⟨?_, ?_, hi.queue, hi.size⟩
    · cases hm with
      | noInvoker m htask htarget hid =>
        -- the task holds a good message
        rcases hi.hand m htask with rfl | ⟨d, rfl, hd⟩
        · exact absurd rfl hid
        · simp [ThreadMsg.target, hd] at htarget
      | _ => simp
    · intro m hgot
      cases hm with
      | _ => cases hgot
  | throw m hlab =>
    rw [hlab] at hok
    exact absurd hok id
  | get m rest htask hq =>
    have hmsgs := messages_of_queue hq
    have hsize := hi.size
    rw [hmsgs, List.length_cons] at hsize
    refine ⟨by simp, ?_, ?_, ?_⟩
    · intro x hx
      rw [← RtosPc.got.inj hx]
      exact hi.queue m (by rw [hmsgs]; exact List.mem_cons_self ..)
    · intro x hx
      exact hi.queue x (by rw [hmsgs]; exact List.mem_cons_of_mem m hx)
    · exact Nat.le_of_succ_le hsize
  | invoke m d => exact ⟨by simp, by simp, hi.queue, hi.size⟩
  | give => exact ⟨by simp, by simp, hi.queue, hi.size⟩

theorem sound_of_reachable (hr : (rtosThreadLts p cfg).ReachableWhen Sound s) :
    SoundInv cfg s := by
  refine hr.induct (P := SoundInv cfg) ?_ ?_
  · intro s hinit
    rw [show s = RtosThread.initial from hinit]
    exact .initial
  · intro l s _ hg hok hi
    exact hi.step (step_effect p cfg hg) hok

/-! ## `ExitThread` on its way -/

/-- `ExitThread` finds room for its message, now or when the task has received. -/
structure Going (cfg : Config) (s : RtosThread) : Prop where
  life : LifeInv s
  sound : SoundInv cfg s
  exit : s.exit = true
  put : s.control = .put → s.hasSpace cfg ∨ s.task = .receive ∧ s.messages ≠ []
  acquire : s.control = .acquire → s.task = .receive → .exit ∈ s.messages

/-- No message leaves the queue any more. -/
structure Hung (cfg : Config) (s : RtosThread) : Prop where
  put : s.control = .put
  full : ¬ s.hasSpace cfg
  task : s.task ≠ .receive
  exit : s.exit = true

/-- Steps to the end. -/
def taskRank : RtosPc → ℕ
  | .receive => 5
  | .got _ => 4
  | .invoking _ => 3
  | .loop => 2
  | .leaving => 1
  | _ => 0

def exitRank : ExitPc → ℕ
  | .put => 3
  | .acquire => 2
  | .cleanUp => 1
  | .idle => 0

def rank (s : RtosThread) : ℕ := taskRank s.task + exitRank s.control

theorem taskRank_le (pc : RtosPc) : taskRank pc ≤ 5 := by
  cases pc <;> simp [taskRank]

/-- With `m_exit` set, each of these steps is one of the last. -/
theorem rank_lt (hexit : s.exit = true) (hl : ExitStep l) (hg : guard cfg l s) :
    (update p cfg l s).exit = true ∧ rank (update p cfg l s) < rank s := by
  cases l with
  | createThread | exitThread | exitSelf | dispatchDelegate | dispatchPut | dispatchTimeout
  | invokeThrow => exact absurd hl id
  | exitPut =>
    refine ⟨hexit, ?_⟩
    have hcontrol : s.control = .put := hg.1
    simp [rank, update, exitPut, hcontrol, exitRank]
  | exitAcquire =>
    refine ⟨hexit, ?_⟩
    have hcontrol : s.control = .acquire := hg.1
    simp [rank, update, hcontrol, exitRank]
  | exitCleanUp =>
    refine ⟨hexit, ?_⟩
    have hcontrol : s.control = .cleanUp := hg
    simp [rank, update, close, hcontrol, exitRank]
  | runLoop =>
    refine ⟨hexit, ?_⟩
    have htask : s.task = .loop := hg
    simp [rank, update, htask, hexit, taskRank]
  | runGet =>
    have htask : s.task = .receive := hg.1
    simp only [update, get]
    split
    · refine ⟨hexit, ?_⟩
      simp [rank, htask, taskRank]
    · rename_i hnone
      exfalso
      refine hg.2 ?_
      cases hq : s.queue with
      | none => simp [messages, hq]
      | some q =>
        cases q with
        | nil => simp [messages, hq]
        | cons m rest => exact absurd hq (hnone m rest)
  | runTimeout =>
    refine ⟨hexit, ?_⟩
    have htask : s.task = .receive := hg.1
    simp [rank, update, htask, taskRank]
  | runMsg m =>
    have htask : s.task = .got m := hg
    simp only [update, processMsg]
    split
    · exact ⟨hexit, by simp [rank, htask, taskRank]⟩
    · refine ⟨hexit, ?_⟩
      simp only [rank, htask]
      split <;> simp [taskRank]
  | invokeReturn m =>
    refine ⟨hexit, ?_⟩
    have htask : s.task = .invoking m := hg
    simp only [rank, update, htask]
    split <;> simp [taskRank]
  | runGive =>
    refine ⟨hexit, ?_⟩
    have htask : s.task = .leaving := hg
    simp [rank, update, htask, taskRank]

theorem hung_step (h : Hung cfg s) (hl : ExitStep l) (hg : guard cfg l s) :
    Hung cfg (update p cfg l s) := by
  have hput := h.put
  cases l with
  | createThread | exitThread | exitSelf | dispatchDelegate | dispatchPut | dispatchTimeout
  | invokeThrow => exact absurd hl id
  | exitPut => exact absurd hg.2 h.full
  | exitAcquire =>
    have hcontrol : s.control = .acquire := hg.1
    rw [hput] at hcontrol
    cases hcontrol
  | exitCleanUp =>
    have hcontrol : s.control = .cleanUp := hg
    rw [hput] at hcontrol
    cases hcontrol
  | runGet => exact absurd hg.1 h.task
  | runTimeout => exact absurd hg.1 h.task
  | runLoop => exact ⟨hput, h.full, by simp [update, h.exit], h.exit⟩
  | runMsg m =>
    simp only [update, processMsg]
    split
    · exact ⟨hput, h.full, by simp, h.exit⟩
    · refine ⟨hput, h.full, ?_, h.exit⟩
      dsimp only
      split <;> simp
  | invokeReturn m =>
    refine ⟨hput, h.full, ?_, h.exit⟩
    simp only [update]
    split <;> simp
  | runGive => exact ⟨hput, h.full, by simp [update], h.exit⟩

theorem going_step (h : Going cfg s) (hl : ExitStep l) (hg : guard cfg l s) :
    Going cfg (update p cfg l s) := by
  have hok : Sound l s := by
    cases l with
    | invokeThrow => exact absurd hl id
    | dispatchDelegate | dispatchPut => exact absurd hl id
    | _ => trivial
  have hlife := h.life.step (step_effect p cfg hg)
  have hsound := h.sound.step (step_effect p cfg hg) hok
  have hexit := (rank_lt (p := p) h.exit hl hg).1
  cases l with
  | createThread | exitThread | exitSelf | dispatchDelegate | dispatchPut | dispatchTimeout
  | invokeThrow => exact absurd hl id
  | exitPut =>
    refine ⟨hlife, hsound, hexit, fun hfalse => (by cases hfalse), ?_⟩
    intro _ _
    have hbusy := h.life.busy (by rw [show s.control = .put from hg.1]; decide)
    have hqueue := h.life.queue
    rw [hbusy.1] at hqueue
    rcases Option.isSome_iff_exists.mp hqueue with ⟨q, hq⟩
    have hmsgs : (s.exitPut p).messages = p.enqueue .exit q := by
      simp [messages, exitPut, hq]
    change ThreadMsg.exit ∈ (s.exitPut p).messages
    rw [hmsgs]
    exact (enqueue_perm p .exit q).symm.subset (List.mem_cons_self ..)
  | exitAcquire =>
    exact ⟨hlife, hsound, hexit, fun hfalse => (by cases hfalse), fun hfalse => (by cases hfalse)⟩
  | exitCleanUp =>
    exact ⟨hlife, hsound, hexit, fun hfalse => (by cases hfalse), fun hfalse => (by cases hfalse)⟩
  | runLoop =>
    have htask : s.task = .loop := hg
    refine ⟨hlife, hsound, hexit, ?_, ?_⟩
    · intro hcontrol
      rcases h.put hcontrol with hspace | ⟨hreceive, -⟩
      · exact Or.inl hspace
      · rw [htask] at hreceive
        cases hreceive
    · intro _ hreceive
      simp [update, h.exit] at hreceive
  | runGet =>
    rcases hg with ⟨htask, hne⟩
    cases hq : s.queue with
    | none => exact absurd (by simp [messages, hq]) hne
    | some q =>
      cases q with
      | nil => exact absurd (by simp [messages, hq]) hne
      | cons m rest =>
        -- there is room behind a message that was received
        have hsize := h.sound.size
        rw [messages_of_queue hq, List.length_cons] at hsize
        simp only [update, get, hq] at hlife hsound hexit ⊢
        refine ⟨hlife, hsound, hexit, fun _ => Or.inl hsize, ?_⟩
        intro _ hreceive
        cases hreceive
  | runTimeout =>
    rcases hg with ⟨htask, hempty, -⟩
    refine ⟨hlife, hsound, hexit, ?_, ?_⟩
    · intro hcontrol
      rcases h.put hcontrol with hspace | ⟨-, hne⟩
      · exact Or.inl hspace
      · exact absurd hempty hne
    · intro _ hreceive
      cases hreceive
  | runMsg m =>
    have htask : s.task = .got m := hg
    have hput : s.control = .put → s.hasSpace cfg := by
      intro hcontrol
      rcases h.put hcontrol with hspace | ⟨hreceive, -⟩
      · exact hspace
      · rw [htask] at hreceive
        cases hreceive
    simp only [update, processMsg] at hlife hsound hexit ⊢
    split at hlife
    · rename_i d hd
      simp only [hd] at hsound hexit ⊢
      exact ⟨hlife, hsound, hexit, fun hcontrol => Or.inl (hput hcontrol),
        fun _ hreceive => (by cases hreceive)⟩
    · rename_i hd
      simp only [hd] at hsound hexit ⊢
      refine ⟨hlife, hsound, hexit, fun hcontrol => Or.inl (hput hcontrol), ?_⟩
      intro _ hreceive
      dsimp only at hreceive
      split at hreceive <;> cases hreceive
  | invokeReturn m =>
    have htask : s.task = .invoking m := hg
    refine ⟨hlife, hsound, hexit, ?_, ?_⟩
    · intro hcontrol
      rcases h.put hcontrol with hspace | ⟨hreceive, -⟩
      · exact Or.inl hspace
      · rw [htask] at hreceive
        cases hreceive
    · intro _ hreceive
      simp only [update] at hreceive
      split at hreceive <;> cases hreceive
  | runGive =>
    have htask : s.task = .leaving := hg
    refine ⟨hlife, hsound, hexit, ?_, fun _ hreceive => (by cases hreceive)⟩
    intro hcontrol
    rcases h.put hcontrol with hspace | ⟨hreceive, -⟩
    · exact Or.inl hspace
    · rw [htask] at hreceive
      cases hreceive

/-- Somebody can step as long as `ExitThread` has not returned. -/
theorem going_progress (h : Going cfg s) (hcontrol : s.control ≠ .idle) :
    ∃ l, ExitStep l ∧ guard cfg l s := by
  cases hc : s.control with
  | idle => exact absurd hc hcontrol
  | put =>
    rcases h.put hc with hspace | hreceive
    · exact ⟨.exitPut, trivial, hc, hspace⟩
    · exact ⟨.runGet, trivial, hreceive⟩
  | cleanUp => exact ⟨.exitCleanUp, trivial, hc⟩
  | acquire =>
    have hcreated := (h.life.busy hcontrol).1
    cases htask : s.task with
    | notCreated => exact absurd htask (h.life.running hcreated)
    | faulted => exact absurd htask h.sound.task
    | loop => exact ⟨.runLoop, trivial, htask⟩
    | receive =>
      have hmem := h.acquire hc htask
      exact ⟨.runGet, trivial, htask, List.ne_nil_of_mem hmem⟩
    | got m => exact ⟨.runMsg m, trivial, htask⟩
    | invoking m => exact ⟨.invokeReturn m, trivial, htask⟩
    | leaving => exact ⟨.runGive, trivial, htask⟩
    | deleted =>
      -- it has given the semaphore
      have hsem := h.life.sem
      rw [if_pos ⟨hcreated, htask, by rw [hc]; decide⟩] at hsem
      exact ⟨.exitAcquire, trivial, hc, by omega⟩

/-! ## Behind an exit -/

/-- The task takes no message. -/
structure Dead (s : RtosThread) : Prop where
  exit : s.exit = true
  receive : s.task ≠ .receive
  got : ∀ m, s.task ≠ .got m

theorem Dead.of_gone (h : LifeInv s) (hexit : s.exit = true) (hgone : s.created = false) :
    Dead s := by
  by_cases hself : s.selfExit = true
  · have hret := (h.selfExit hself).2.2
    refine ⟨hexit, ?_, ?_⟩
    · intro htask
      rw [htask] at hret
      exact hret
    · intro m htask
      rw [htask] at hret
      exact hret
  · rcases h.stopped hgone (by simpa using hself) with htask | htask
    · exact ⟨hexit, by simp [htask], by simp [htask]⟩
    · exact ⟨hexit, by simp [htask], by simp [htask]⟩

theorem Dead.step (h : Effect p cfg l s s') (hd : Dead s) :
    Dead s' ∧ s'.invoked = s.invoked := by
  cases h with
  | stutter | dispatch | accept => exact ⟨⟨hd.exit, hd.receive, hd.got⟩, rfl⟩
  | put | acquire | cleanUp => exact ⟨⟨hd.exit, hd.receive, hd.got⟩, rfl⟩
  | beginExit | exitSelf => exact ⟨⟨rfl, hd.receive, hd.got⟩, rfl⟩
  | create => exact ⟨⟨hd.exit, by simp, by simp⟩, rfl⟩
  | move pc hm =>
    refine ⟨⟨hd.exit, ?_, ?_⟩, rfl⟩
    · cases hm with
      | receive htask hexit => exact absurd (hd.exit.symm.trans hexit) (by decide)
      | _ => simp
    · intro m
      cases hm with
      | _ => simp
  | throw | give => exact ⟨⟨hd.exit, by simp, by simp⟩, rfl⟩
  | get m rest htask => exact absurd htask hd.receive
  | invoke m d htask => exact absurd htask (hd.got m)

end RtosThread

open RtosThread

/-! ## The results -/

/-- After an exit by another thread, or by a callback that has returned, no message
is run any more, whatever a thread that is created again accepts. -/
theorem restart_invokes_nothing {p : RtosPort} {cfg : Config} {s s' : RtosThread}
    (hr : (rtosThreadLts p cfg).Reachable s) (hexit : s.exit = true) (hgone : s.created = false)
    (hsteps : (rtosThreadLts p cfg).Steps s s') :
    s'.exit = true ∧ s'.invoked = s.invoked ∧
      ∀ m ∈ s'.accepted, m ∉ s.accepted → m ∉ s'.invoked := by
  have hdead : Dead s' ∧ s'.invoked = s.invoked :=
    hr.preserves (P := fun t => Dead t ∧ t.invoked = s.invoked)
      (fun l t _ hg _ h => by
        rcases Dead.step (step_effect p cfg hg) h.1 with ⟨hd, heq⟩
        exact ⟨hd, heq.trans h.2⟩)
      hsteps ⟨Dead.of_gone (life_of_reachable hr) hexit hgone, rfl⟩
  refine ⟨hdead.1.exit, hdead.2, ?_⟩
  intro m _ hnew hinvoked
  rw [hdead.2] at hinvoked
  have hledger := (history_of_reachable hr).ledger
  have hremoved := (hledger.invoked_sublist.trans hledger.sublist).subset hinvoked
  exact hnew (hledger.perm.symm.subset (List.mem_append_left _ hremoved))

/-- The first message is run, the second one is accepted by the next life. -/
theorem restart_invokes_nothing_run : ∃ s s' : RtosThread,
    s.invoked = [⟨0, true, .normal⟩] ∧
      s'.accepted = [⟨0, true, .normal⟩, ⟨1, true, .high⟩] ∧ s'.task = .deleted ∧
      (s'.exit = true ∧ s'.invoked = s.invoked ∧
        ∀ m ∈ s'.accepted, m ∉ s.accepted → m ∉ s'.invoked) := by
  have hrun : (((rtosThreadLts .threadX ⟨2, .fault⟩).execWhen Lts.always initial
      [.createThread none, .runLoop, .dispatchDelegate ⟨0, true, .normal⟩, .runGet,
        .runMsg (.delegate ⟨0, true, .normal⟩), .exitThread, .exitPut,
        .invokeReturn ⟨0, true, .normal⟩, .runLoop, .runGive, .exitAcquire, .exitCleanUp]).any
      fun s => (s.exit && !s.created) && s.invoked = [⟨0, true, .normal⟩] &&
        ((rtosThreadLts .threadX ⟨2, .fault⟩).execWhen Lts.always s
          [.createThread none, .dispatchDelegate ⟨1, true, .high⟩, .runLoop, .runGive]).any
          fun s' => s'.accepted = [⟨0, true, .normal⟩, ⟨1, true, .high⟩] && s'.task = .deleted) =
      true := by
    decide +kernel
  rcases (Option.any_eq_true _ _).mp hrun with ⟨s, hs, hp⟩
  simp only [Bool.and_eq_true, decide_eq_true_eq, Bool.not_eq_true'] at hp
  rcases hp with ⟨⟨⟨hexit, hgone⟩, hinvoked⟩, hnext⟩
  rcases (Option.any_eq_true _ _).mp hnext with ⟨s', hs', hp'⟩
  simp only [Bool.and_eq_true, decide_eq_true_eq] at hp'
  have hr : (rtosThreadLts .threadX ⟨2, .fault⟩).Reachable s :=
    ⟨initial, rfl, Lts.execWhen_steps _ hs⟩
  exact ⟨s, s', hinvoked, hp'.1, hp'.2,
    restart_invokes_nothing hr hexit hgone (Lts.execWhen_steps _ hs')⟩

end AsyncSqlite
