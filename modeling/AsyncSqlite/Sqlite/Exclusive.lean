import AsyncSqlite.Sqlite.Api

/-!
# AsyncSqlite.Sqlite.Exclusive — exclusive access to the handles

Who is inside a SQLite library call that takes a handle, in any number of
clients that call any functions of the namespace.

Only a worker inside the target of a message executes what goes through the
helpers, so two things decide. `Sys.program_unique`: at most one worker is
inside a target, unless `CreateThread` starts a worker while an earlier one,
which has detached itself, is still in its program. And the wrappers that call
the library on the thread of their caller (`Api.bypasses_iff`).

`exclusive_handles` is the exclusion in the runs without either;
`handles_shared` has a run with each.
-/

namespace AsyncSqlite

universe u

namespace Sys

variable {V : Type u} {l : SysLabel V} {s s' : Sys V}

/-! ## One program on the workers -/

/-- `CreateThread` starts no worker while another one is inside a target. -/
def Alone : SysLabel V → Sys V → Prop
  | .thread .createSpawn, s => ∀ w < s.thread.spawned, ¬ s.inProgram (.worker w)
  | _, _ => True

instance (l : SysLabel V) (s : Sys V) : Decidable (Alone l s) := by
  induction l using SysLabel.casesOn with
  | thread k => induction k using ThreadLabel.casesOn <;> dsimp only [Alone] <;> infer_instance
  | _ => exact isTrue trivial

/-- `ExitThread` begins in the code of a program. -/
theorem inExit_of_step (h : SysEffect l s s') {t : Tid} (ht : s'.inExit t) :
    s.inExit t ∨ l = .thread (.exitThread t) ∧ s.mayAct t := by
  rcases thread_step h with hsame | ⟨k, hl, hg, hk, hupd⟩
  · left
    rw [inExit, hsame] at ht
    exact ht
  · have heff := ThreadState.step_effect sqliteConfig hg
    rw [inExit, hupd] at ht
    generalize ThreadState.update sqliteConfig k s.thread = t' at heff ht
    cases heff with
    | beginExit u hu =>
      right
      have hut : u = t := by simpa using ht
      subst hut hu
      exact ⟨hl, hk⟩
    -- from here on `ExitThread` goes from one of its steps to the next
    | pushExit u hcon =>
      have hut : u = t := by simpa using ht
      exact Or.inl (Or.inl (hut ▸ hcon))
    | join u v hcon =>
      have hut : u = t := by simpa using ht
      exact Or.inl (Or.inr (Or.inl (hut ▸ hcon)))
    | detach v hcon =>
      have hvt : Tid.worker v = t := by simpa [ThreadState.detach] using ht
      exact Or.inl (Or.inr (Or.inl (hvt ▸ hcon)))
    | unjoinable u hcon =>
      have hut : u = t := by simpa using ht
      exact Or.inl (Or.inr (Or.inl (hut ▸ hcon)))
    | beginCreate | clearExit | started => simp at ht
    | spawn => simp [ThreadState.spawn] at ht
    | reset => simp [ThreadState.exitReset] at ht
    | stutter | dispatch | accept | move | popHigh | popNormal | invoke => exact Or.inl ht

/-- A thread inside `ExitThread` is inside its program. -/
def ExitInv (s : Sys V) : Prop := ∀ t, s.inExit t → s.inProgram t

theorem ExitInv.step {ok : SysLabel V → Sys V → Prop} (hr : (sysLts V).ReachableWhen ok s)
    (hg : guard l s) (hi : ExitInv s) : ExitInv (update l s) := by
  intro t ht
  rcases inExit_of_step (sys_effect hg) ht with hold | ⟨hl, hact⟩
  · rcases inProgram_of_step hr hg (hi t hold) with hkept | ⟨w, i, -, hleave, -⟩
    · exact hkept
    · exact absurd hold hleave.1
  · subst hl
    rcases inProgram_of_step hr hg hact.1 with hkept | ⟨w, i, -, -, ⟨k, hk⟩ | ⟨k, hk⟩⟩
    · exact hkept
    · cases hk
    · cases hk

theorem exit_of_reachable {ok : SysLabel V → Sys V → Prop} (h : (sysLts V).ReachableWhen ok s) :
    ExitInv s := by
  refine h.induct ?_ ?_
  · rintro s rfl t ht
    simp [inExit, Sys.initial, ThreadState.initial] at ht
  · intro l s hr hg _ hi
    exact hi.step hr hg

/-- A worker that detached itself did so in the target of its message. -/
def DetachInv (s : Sys V) : Prop :=
  ∀ w m, (s.thread.worker w).pc = .invoking m → (s.thread.worker w).selfExit = true →
    (s.state m.id).hasStarted = true

theorem DetachInv.step {ok : SysLabel V → Sys V → Prop} (hr : (sysLts V).ReachableWhen ok s)
    (hg : guard l s) (hi : DetachInv s) : DetachInv (update l s) := by
  intro w m hw hse
  have hlife := ThreadState.life_of_reachable (thread_of_reachable hr)
  -- it was inside `Invoke` for the message, and detached or about to be
  suffices hst : (s.state m.id).hasStarted = true from hasStarted_kept hr hg hst
  rcases thread_step (sys_effect hg) with hsame | ⟨k, -, hgk, -, hupd⟩
  · rw [hsame] at hw hse
    exact hi w m hw hse
  · rw [hupd] at hw hse
    have heff := ThreadState.step_effect sqliteConfig hgk
    have hold := ThreadState.selfExit_begins heff hse
    have hin : s.thread.control = .exitJoin (.worker w) → s.inProgram (.worker w) :=
      fun hcon => exit_of_reachable hr _ (Or.inr (Or.inl hcon))
    rcases ThreadState.invoking_of_step heff hw with hw₀ | ⟨x, -, hgot, -, -⟩
    · rcases hold with hse₀ | hcon
      · exact hi w m hw₀ hse₀
      · rcases inProgram_worker.mp (hin hcon) with ⟨n, hn, hrun⟩
        have hmn : m = n := by simpa [hw₀] using hn
        subst hmn
        exact CallState.hasStarted_of_running hrun
    · -- a worker with a message in its hand is live, and in no `ExitThread`
      exfalso
      rcases hold with hse₀ | hcon
      · rw [(hlife.live_of_got hgot).2.2] at hse₀
        cases hse₀
      · rcases inProgram_worker.mp (hin hcon) with ⟨n, hn, -⟩
        rw [hgot] at hn
        cases hn

theorem detach_of_reachable {ok : SysLabel V → Sys V → Prop} (h : (sysLts V).ReachableWhen ok s) :
    DetachInv s := by
  refine h.induct ?_ ?_
  · rintro s rfl w m hw
    cases hw
  · intro l s hr hg _ hi
    exact hi.step hr hg

/-- A worker comes into a program by a start, which only a live worker makes. -/
theorem inProgram_begins {ok : SysLabel V → Sys V → Prop} (hr : (sysLts V).ReachableWhen ok s)
    (hg : guard l s) (hok : ok l s) {w : ℕ} (hw : (update l s).inProgram (.worker w)) :
    s.inProgram (.worker w) ∨ s.thread.Live w ∧ (update l s).thread = s.thread := by
  have hhandler := ThreadState.handler_of_reachable (thread_of_reachable (hr.next hg hok))
  rcases inProgram_worker.mp hw with ⟨m, hm, hrun⟩
  -- whoever ran the target before the step still does, so it was this worker
  have hback : (s.state m.id).targetRunning = true → s.inProgram (.worker w) := by
    intro hrun₀
    have hin := CallState.inInvoke_of_running hrun₀
    rcases invoke_of_reachable hr m.id hin with ⟨v, hv⟩
    have hv' := invoking_of_inInvoke (m := message m.id) (sys_effect hg) (calls_of_reachable hr)
      hin hv
    have hvw := hhandler.unique v w (message m.id) m hv' hm rfl
    subst hvw
    exact inProgram_worker.mpr ⟨message m.id, hv, hrun₀⟩
  rcases started_of_reachable hr hg with ⟨-, hsame⟩ | ⟨p, j, -, hth, hj, -, hother, hstarts⟩
  · exact Or.inl (hback ((hsame m.id).2 hrun))
  · by_cases hmj : m.id = j
    · subst hmj
      rw [hth] at hm
      rcases hstarts with ⟨v, -, hv, -, -⟩ | ⟨v, n, -, -, -, -, -, hcall⟩
      · -- the target had not been started, so the worker has not detached itself
        refine Or.inr ⟨⟨by simp [hm], by simp [hm], ?_⟩, hth⟩
        by_contra hse
        rw [detach_of_reachable hr w m hm (by simpa using hse)] at hj
        cases hj
      · rw [state, hcall] at hrun
        cases hrun
    · rw [hother m.id hmj] at hrun
      exact Or.inl (hback hrun)

/-- Who is inside a target is the only worker that is, or will be. -/
def SoleInv (s : Sys V) : Prop :=
  ∀ v w, s.inProgram (.worker v) → s.inProgram (.worker w) ∨ s.thread.Live w → v = w

theorem SoleInv.step (hr : (sysLts V).ReachableWhen Alone s) (hg : guard l s) (hok : Alone l s)
    (hi : SoleInv s) : SoleInv (update l s) := by
  have hlife := ThreadState.life_of_reachable (thread_of_reachable hr)
  -- a worker that is created finds no program
  have hlive : ∀ w, (update l s).thread.Live w →
      s.thread.Live w ∨
        (∀ v, ¬ s.inProgram (.worker v)) ∧ (update l s).thread ≠ s.thread := by
    intro w hw
    rcases thread_step (sys_effect hg) with hsame | ⟨k, hl, hgk, -, hupd⟩
    · rw [hsame] at hw
      exact Or.inl hw
    · rw [hupd] at hw ⊢
      rcases ThreadState.live_of_step (ThreadState.step_effect sqliteConfig hgk) hw with
        hold | hspawn
      · exact Or.inl hold
      · right
        have hmore : (ThreadState.update sqliteConfig k s.thread).spawned =
            s.thread.spawned + 1 := by
          rw [hspawn]
          rfl
        refine ⟨?_, fun heq => by rw [heq] at hmore; omega⟩
        rcases ThreadState.spawned_of_update sqliteConfig k s.thread with hsame | hk
        · omega
        · subst hk hl
          intro v hv
          refine hok v ?_ hv
          by_contra hge
          rcases inProgram_worker.mp hv with ⟨m, hm, -⟩
          rw [hlife.workers.fresh v (by omega)] at hm
          cases hm
  intro v w hv hw
  have hw' : s.inProgram (.worker w) ∨ s.thread.Live w ∨
      (∀ v, ¬ s.inProgram (.worker v)) ∧ (update l s).thread ≠ s.thread := by
    rcases hw with hw | hw
    · rcases inProgram_begins hr hg hok hw with hold | ⟨hold, -⟩
      · exact Or.inl hold
      · exact Or.inr (Or.inl hold)
    · exact Or.inr (hlive w hw)
  rcases inProgram_begins hr hg hok hv with hv | ⟨hv, hsame⟩
  · rcases hw' with hw | hw | ⟨hnone, -⟩
    · exact hi v w hv (Or.inl hw)
    · exact hi v w hv (Or.inr hw)
    · exact absurd hv (hnone v)
  · -- `v` starts a target in this step
    rcases hw' with hw | hw | ⟨-, hne⟩
    · exact (hi w v hw (Or.inr hv)).symm
    · exact hlife.workers.live_unique hv hw
    · exact absurd hsame hne

/-- At most one worker is inside a target. -/
theorem program_unique (h : (sysLts V).ReachableWhen Alone s) {v w : ℕ}
    (hv : s.inProgram (.worker v)) (hw : s.inProgram (.worker w)) : v = w := by
  have hsole : SoleInv s := by
    refine h.induct ?_ ?_
    · rintro s rfl v w hv
      exact hv.elim
    · intro l s hr hg hok hi
      exact hi.step hr hg hok
  exact hsole v w hv (Or.inl hw)

/-- A function is run in place by a worker, inside the target of a message. -/
def InPlaceInv (s : Sys V) : Prop :=
  ∀ i, s.state i = .inPlace .running →
    ∃ w, (s.calls i).caller = .worker w ∧ s.inProgram (.worker w)

/-- A step of `Invoke` or of a task issues no call. -/
theorem ncalls_of_invoke (hg : guard l s)
    (hl : ∃ w i, (∃ k, l = .invoke w i k) ∨ ∃ k, l = .task w i k) :
    (update l s).ncalls = s.ncalls := by
  rcases hl with ⟨w, i, ⟨k, rfl⟩ | ⟨k, rfl⟩⟩
  · rcases hg with ⟨-, -, -, -, c, hc, -⟩
    simp only [update, hc]
    split <;> rfl
  · rcases hg with ⟨-, -, -, -, c, hc, -⟩
    simp only [update, hc]
    split <;> rfl

/-- A call that is running in place was so before, if it was issued before. -/
theorem inPlace_of_step (h : SysEffect l s s') {i : ℕ} (hi : i < s.ncalls)
    (hrun : s'.state i = .inPlace .running) : s.state i = .inPlace .running := by
  rcases call_move h i with ⟨st, hst, hmove⟩
  rw [hrun] at hst
  subst hst
  generalize hnew : CallState.inPlace InlinePc.running = st at hmove
  cases hmove with
  | keep => rfl
  | issue t _ heq | inPlace heq => omega
  | enter w x m =>
    cases hc : s.state i with
    | inPlace pc => rfl
    | _ => simp [hc, CallState.enter] at hnew
  | leave pc hc => rw [hc, ← hnew]
  | wait | invoke | future | task => cases hnew

theorem InPlaceInv.step {ok : SysLabel V → Sys V → Prop} (hr : (sysLts V).ReachableWhen ok s)
    (hg : guard l s) (hok : ok l s) (hi : InPlaceInv s) : InPlaceInv (update l s) := by
  have heff := sys_effect hg
  intro i hrun
  have hlt : i < (update l s).ncalls := (birth_of_reachable (hr.next hg hok)).lt (by
    show (update l s).state i ≠ .unborn
    rw [hrun]
    simp)
  by_cases hold : i < s.ncalls
  · have hrun₀ := inPlace_of_step heff hold hrun
    rcases hi i hrun₀ with ⟨w, hw, hprog⟩
    refine ⟨w, (origin_of_step heff hold).1.trans hw, ?_⟩
    rcases inProgram_of_step hr hg hprog with hkept | ⟨v, j, -, hleave, -⟩
    · exact hkept
    · -- the program has not left the call, so it stays in its target
      have hclosed := hleave.2.2 i hold (Nat.zero_le i) hw
      rw [hrun₀] at hclosed
      cases hclosed
  · rcases issued_of_step heff hlt hold with ⟨rfl, -, t, st, hact, hcall, hst⟩
    rw [state, hcall] at hrun
    have hst' : st = .inPlace .running := hrun
    subst hst'
    rcases hst with hst | ⟨w, rfl, -, -⟩
    · cases hst
    · refine ⟨w, by rw [hcall], ?_⟩
      rcases inProgram_of_step hr hg hact.1 with hkept | ⟨v, j, -, -, hl⟩
      · exact hkept
      · have hsame := ncalls_of_invoke hg ⟨v, j, hl⟩
        omega

theorem inPlace_of_reachable {ok : SysLabel V → Sys V → Prop} (h : (sysLts V).ReachableWhen ok s) :
    InPlaceInv s := by
  refine h.induct ?_ ?_
  · rintro s rfl i hi
    cases hi
  · intro l s hr hg hok hi
    exact hi.step hr hg hok

end Sys

namespace ApiSys

variable {V : Type u} {l : ApiLabel V} {s : ApiSys V}

/-! ## Direct library calls -/

/-- No thread but a worker calls a wrapper that reaches a handle past the
worker, and `CreateThread` starts no worker while another one is inside a
target. -/
def Confined : ApiLabel V → ApiSys V → Prop
  | .call (.client _) f _, _ => ¬ f.Bypasses
  | .sys k, s => Sys.Alone k s.sys
  | _, _ => True

instance (l : ApiLabel V) (s : ApiSys V) : Decidable (Confined l s) := by
  induction l using ApiLabel.casesOn with
  | sys k => exact inferInstanceAs (Decidable (Sys.Alone k s.sys))
  | call t f forever => induction t using Tid.casesOn <;> dsimp only [Confined] <;> infer_instance
  | directReturn t => exact isTrue trivial

/-- A run of the namespace is one of its interface. -/
theorem sys_of_reachable (h : (apiLts V).ReachableWhen Confined s) :
    (sysLts V).ReachableWhen Sys.Alone s.sys := by
  refine h.map (f := ApiSys.sys) ?_ ?_
  · rintro s rfl
    rfl
  · intro l s _ hg hok
    rcases sys_step hg with hsame | ⟨k, hk, hupd, hlabel, -⟩
    · exact Or.inl hsame
    · refine Or.inr ⟨k, hk, ?_, hupd⟩
      rcases hlabel with rfl | hhelper
      · exact hok
      · cases k with
        | asyncInvoke t forever | asyncInvokeFuture t => exact trivial
        | _ => cases hhelper

/-- What a step does to the direct library call of a thread. -/
theorem direct_of_step (hg : guard l s) {t : Tid} {f : Api}
    (ht : (update l s).direct t = some f) :
    s.direct t = some f ∨
      (∃ forever, l = .call t f forever) ∧ (wrapper f).route = .direct ∧ s.sys.mayAct t ∧
        (update l s).sys = s.sys := by
  cases l with
  | sys k => exact Or.inl ht
  | call u g forever =>
    have ht : (s.call u g forever).direct t = some f := ht
    show _ ∨ _ ∧ _ ∧ _ ∧ (s.call u g forever).sys = s.sys
    unfold call at ht ⊢
    cases hroute : (wrapper g).route with
    | direct =>
      simp only [hroute] at ht ⊢
      by_cases htu : t = u
      · subst htu
        have hgf : g = f := by simpa using ht
        subst hgf
        exact Or.inr ⟨⟨forever, rfl⟩, hroute, hg.1, trivial⟩
      · left
        simpa [htu] using ht
    | asyncInvoke | asyncInvokeFuture =>
      simp only [hroute] at ht
      exact Or.inl ht
  | directReturn u =>
    left
    by_cases htu : t = u
    · subst htu
      simp [update] at ht
    · simpa [update, htu] using ht

/-- A thread in a direct library call is inside its program; a client is in one
only for a wrapper that leaves the handles alone. -/
def DirectInv (s : ApiSys V) : Prop :=
  ∀ t f, s.direct t = some f →
    s.sys.inProgram t ∧ ((∃ c, t = .client c) → ¬ f.UsesHandle)

theorem DirectInv.step (hr : (apiLts V).ReachableWhen Confined s) (hg : guard l s)
    (hok : Confined l s) (hi : DirectInv s) : DirectInv (update l s) := by
  intro t f ht
  rcases direct_of_step hg ht with hold | ⟨⟨forever, rfl⟩, hroute, hact, hsame⟩
  · rcases hi t f hold with ⟨hprog, hclient⟩
    refine ⟨?_, hclient⟩
    rcases sys_step hg with hsame | ⟨k, hk, hupd, -, hfree⟩
    · rw [hsame]
      exact hprog
    · rw [hupd]
      rcases Sys.inProgram_of_step (sys_of_reachable hr) hk hprog with
        hkept | ⟨w, i, rfl, -, hl⟩
      · exact hkept
      · -- the step would be one of the thread that is in the library
        have hactor : k.actor s.sys = some (.worker w) := by
          rcases hl with ⟨j, rfl⟩ | ⟨j, rfl⟩ <;> rfl
        rw [hfree _ hactor] at hold
        cases hold
  · rw [hsame]
    refine ⟨hact.1, ?_⟩
    rintro ⟨c, rfl⟩ huses
    exact hok ⟨hroute, huses⟩

theorem direct_of_reachable (h : (apiLts V).ReachableWhen Confined s) : DirectInv s := by
  refine h.induct ?_ ?_
  · rintro s rfl t f hf
    cases hf
  · intro l s hr hg hok hi
    exact hi.step hr hg hok

/-! ## Exclusive access -/

/-- The library calls that take a handle are executed by a worker, inside the
target of a message, and all of them by one: one that is made while another is
in progress is made inside it. -/
structure Exclusive (s : ApiSys V) : Prop where
  onWorker : ∀ t f, s.Executing t f → f.UsesHandle →
    ∃ w m, t = .worker w ∧ (s.sys.thread.worker w).pc = .invoking m
  oneThread : ∀ t u f g, s.Executing t f → s.Executing u g → f.UsesHandle → g.UsesHandle → t = u

/-- Whoever executes a library call on a handle is a worker inside a target. -/
theorem inProgram_of_executing (h : (apiLts V).ReachableWhen Confined s) {t : Tid} {f : Api}
    (hex : s.Executing t f) (huses : f.UsesHandle) :
    ∃ w, t = .worker w ∧ s.sys.inProgram (.worker w) := by
  cases hex with
  | target w i _ hf hw hrun => exact ⟨w, rfl, Sys.inProgram_worker.mpr ⟨message i, hw, hrun⟩⟩
  | inPlace i _ hf hrun => exact Sys.inPlace_of_reachable (sys_of_reachable h) i hrun
  | direct _ _ hf =>
    rcases direct_of_reachable h t f hf with ⟨hprog, hclient⟩
    cases t with
    | client c => exact absurd huses (hclient ⟨c, rfl⟩)
    | worker w => exact ⟨w, rfl, hprog⟩

/-- **Exclusive access to the handles**, in runs in which no thread but a worker
calls one of the wrappers that reach a handle past the worker, and in which no
worker is created while another one is inside a target. -/
theorem exclusive_handles (h : (apiLts V).ReachableWhen Confined s) : s.Exclusive where
  onWorker := by
    intro t f hex huses
    rcases inProgram_of_executing h hex huses with ⟨w, rfl, hprog⟩
    rcases Sys.inProgram_worker.mp hprog with ⟨m, hm, -⟩
    exact ⟨w, m, rfl, hm⟩
  oneThread := by
    intro t u f g hf hg hfu hgu
    rcases inProgram_of_executing h hf hfu with ⟨v, rfl, hv⟩
    rcases inProgram_of_executing h hg hgu with ⟨w, rfl, hw⟩
    rw [Sys.program_unique (sys_of_reachable h) hv hw]

/-- A client that calls one of these wrappers is in the library itself. -/
theorem not_exclusive_of_bypass {c : ℕ} {f : Api} (hf : f.Bypasses) (forever : Bool) :
    ¬ (update (.call (.client c) f forever) s).Exclusive := by
  intro hex
  have hdirect : (s.call (.client c) f forever).Executing (.client c) f := by
    refine .direct _ _ ?_
    simp [call, hf.1]
  rcases hex.onWorker _ _ hdirect hf.2 with ⟨w, m, hw, -⟩
  cases hw

/-- The worker steps a statement for a client. -/
def stepRun : List (ApiLabel ℤ) :=
  Run.create.map .sys ++ [ApiLabel.call (.client 0) .sqlite3Step true] ++
    (Run.dispatch 0 ++ Run.take 0 ++ Run.start 0).map .sys

theorem exclusive_handles_run :
    ∃ s : ApiSys ℤ, (apiLts ℤ).ReachableWhen Confined s ∧
      s.Executing (.worker 0) .sqlite3Step ∧ s.Executing (.client 1) .sqlite3Interrupt ∧
      s.Exclusive := by
  obtain ⟨s, hr, hp⟩ := (apiLts ℤ).execWhen_reachable Confined rfl
    (stepRun ++ [.call (.client 1) .sqlite3Interrupt true])
    (fun s => s.fn 0 = some .sqlite3Step ∧
      (s.sys.thread.worker 0).pc = .invoking (message 0) ∧ (s.sys.state 0).targetRunning = true ∧
      s.direct (.client 1) = some .sqlite3Interrupt) (by decide)
  rcases of_decide_eq_true hp with ⟨hf, hw, hrun, hd⟩
  exact ⟨s, hr, .target 0 0 _ hf hw hrun, .direct _ _ hd, exclusive_handles hr⟩

/-- The program on the worker exits the thread, and the thread is created again. -/
def restart : List (SysLabel ℤ) :=
  [.thread (.exitThread (.worker 0)), .thread (.exitPush (.worker 0)),
    .thread (.exitJoin (.worker 0)), .thread (.exitReset (.worker 0)), .thread .createThread,
    .thread .createClear, .thread .createSpawn, .thread (.processStart 1),
    .thread (.createStart 1)]

/-- The new worker starts the target of call 1. -/
def startSecond : List (SysLabel ℤ) :=
  Run.dispatch 1 ++
    [.thread (.processLoop 1), .thread (.processTake 1),
      .thread (.processSwitch 1 (.delegate (message 1))), .invoke 1 1 .workerLock,
      .invoke 1 1 .workerCheck]

/-- A callback of `sqlite3_exec` exits the thread that runs it, and the thread is
created again and steps a statement. -/
def secondWorkerRun : List (ApiLabel ℤ) :=
  Run.create.map .sys ++ [ApiLabel.call (.client 0) .sqlite3Exec true] ++
    (Run.dispatch 0 ++ Run.take 0 ++ Run.start 0 ++ restart).map .sys ++
    [ApiLabel.call (.client 1) .sqlite3Step true] ++ startSecond.map .sys

/-- A client asks whether the statement is busy that the worker steps; and two
workers are inside the library. -/
theorem handles_shared :
    (∃ s : ApiSys ℤ, (apiLts ℤ).Reachable s ∧ s.Executing (.worker 0) .sqlite3Step ∧
      s.Executing (.client 1) .sqlite3StmtBusy ∧ ¬ s.Exclusive) ∧
    ∃ s : ApiSys ℤ, (apiLts ℤ).Reachable s ∧ s.Executing (.worker 0) .sqlite3Exec ∧
      s.Executing (.worker 1) .sqlite3Step ∧ ¬ s.Exclusive := by
  constructor
  · obtain ⟨s, hr, hp⟩ := (apiLts ℤ).execWhen_reachable Lts.always rfl
      (stepRun ++ [.call (.client 1) .sqlite3StmtBusy true])
      (fun s => s.fn 0 = some .sqlite3Step ∧
        (s.sys.thread.worker 0).pc = .invoking (message 0) ∧
        (s.sys.state 0).targetRunning = true ∧
        s.direct (.client 1) = some .sqlite3StmtBusy) (by decide)
    rcases of_decide_eq_true hp with ⟨hf, hw, hrun, hd⟩
    have hbusy : s.Executing (.client 1) .sqlite3StmtBusy := .direct _ _ hd
    refine ⟨s, hr, .target 0 0 _ hf hw hrun, hbusy, fun hex => ?_⟩
    -- the wrapper calls the library on the client's own thread
    rcases hex.onWorker _ _ hbusy (by decide) with ⟨w, m, hw, -⟩
    cases hw
  · obtain ⟨s, hr, hp⟩ := (apiLts ℤ).execWhen_reachable Lts.always rfl secondWorkerRun
      (fun s => s.fn 0 = some .sqlite3Exec ∧ s.fn 1 = some .sqlite3Step ∧
        (s.sys.thread.worker 0).pc = .invoking (message 0) ∧
        (s.sys.thread.worker 1).pc = .invoking (message 1) ∧
        (s.sys.state 0).targetRunning = true ∧ (s.sys.state 1).targetRunning = true) (by decide)
    rcases of_decide_eq_true hp with ⟨hf₀, hf₁, hw₀, hw₁, hrun₀, hrun₁⟩
    have hexec : s.Executing (.worker 0) .sqlite3Exec := .target 0 0 _ hf₀ hw₀ hrun₀
    have hstep : s.Executing (.worker 1) .sqlite3Step := .target 1 1 _ hf₁ hw₁ hrun₁
    refine ⟨s, hr, hexec, hstep, fun hex => ?_⟩
    have heq := hex.oneThread _ _ _ _ hexec hstep (by decide) (by decide)
    cases heq

end ApiSys

end AsyncSqlite
