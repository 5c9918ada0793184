import AsyncSqlite.Thread.Drain
import AsyncSqlite.Sqlite.Programs

/-!
# AsyncSqlite.Sqlite.Order — one worker, one target at a time

Invariants of the runs in which no program calls `ExitThread` on the worker
that runs it (`Joined`). In such a run a worker inside `Invoke` is the
thread that `m_thread` names, hence:

* at most one target runs (`one_target`), and targets are started in the order
  in which their messages were invoked (`TurnInv`);
* while a program runs, no message it dispatched is invoked (`NestedInv`);
* the last start belongs to the program that runs (`LastInv`), so the starts of
  a program form one block (`BlockInv`).
-/

namespace AsyncSqlite

universe u

namespace Sys

variable {V : Type u} {l : SysLabel V} {s s' : Sys V}

/-! ## One worker -/

/-- No program calls `ExitThread` on the worker that runs it. -/
abbrev Joined : SysLabel V → Sys V → Prop := OnThread ThreadState.Joined

theorem joined_thread (h : (sysLts V).ReachableWhen Joined s) :
    (threadLts sqliteConfig).ReachableWhen ThreadState.Joined s.thread :=
  thread_reachable (fun _ _ hok => hok) h

/-- A worker inside `Invoke` is the one that `m_thread` names. -/
theorem live_of_invoking (h : (sysLts V).ReachableWhen Joined s) {w : ℕ}
    {m : DelegateMsg} (hw : (s.thread.worker w).pc = .invoking m) : s.thread.Live w := by
  have hj := ThreadState.joined_of_reachable (joined_thread h)
  apply hj.live
  · simp [hw]
  · simp [hw]

theorem invoking_unique (h : (sysLts V).ReachableWhen Joined s)
    {v w : ℕ} {m n : DelegateMsg} (hv : (s.thread.worker v).pc = .invoking m)
    (hw : (s.thread.worker w).pc = .invoking n) : v = w ∧ m = n := by
  have hlife := ThreadState.life_of_reachable (thread_of_reachable h)
  have hvw := hlife.workers.live_unique (live_of_invoking h hv) (live_of_invoking h hw)
  subst hvw
  rw [hv] at hw
  exact ⟨rfl, by simpa using hw⟩

/-- At most one target runs. -/
theorem one_target (h : (sysLts V).ReachableWhen Joined s) {i j : ℕ}
    (hi : (s.state i).targetRunning = true) (hj : (s.state j).targetRunning = true) : i = j := by
  have hinv := invoke_of_reachable h
  rcases hinv i (CallState.inInvoke_of_running hi) with ⟨v, hv⟩
  rcases hinv j (CallState.inInvoke_of_running hj) with ⟨w, hw⟩
  have hmsg := (invoking_unique h hv hw).2
  exact congrArg DelegateMsg.id hmsg

/-! ## Calls on the worker -/

/-- A call on the worker runs in place or is a future call. -/
def LocalInv (s : Sys V) : Prop :=
  ∀ i w, i < s.ncalls → (s.calls i).caller = .worker w →
    (s.state i).kind = .inPlace ∨ (s.state i).kind = .future

theorem LocalInv.step (h : SysEffect l s s')
    (hlive : ∀ w m, (s.thread.worker w).pc = .invoking m → s.thread.thread = some (some w))
    (hi : LocalInv s) : LocalInv s' := by
  intro i w hlt hw
  by_cases hold : i < s.ncalls
  · rw [(origin_of_step h hold).1] at hw
    rw [kind_of_step h hold]
    exact hi i w hold hw
  · rcases issued_of_step h hlt hold with ⟨rfl, -, t, st, hact, hcall, hst⟩
    rw [hcall] at hw
    have ht : t = .worker w := hw
    subst ht
    -- the caller is the worker that `m_thread` names, so `GetThreadId` finds it
    rcases program_of_mayAct hact with ⟨m, hm, -⟩
    have hth := hlive w m hm
    have hstate : s'.state s.ncalls = st := by rw [state, hcall]
    rw [hstate]
    rcases hst with hst | ⟨v, -, hin, -⟩
    · cases hst with
      | refused hnone | futureRefused _ hnone =>
        rw [hth] at hnone
        cases hnone
      | notRunning hnone =>
        rw [hth] at hnone
        cases hnone
      | wait forever hother => exact absurd hth (hother w rfl)
      | future => exact Or.inr rfl
    · rw [hin]
      exact Or.inl rfl

theorem local_of_reachable (h : (sysLts V).ReachableWhen Joined s) :
    LocalInv s := by
  refine h.induct ?_ ?_
  · rintro s rfl i w hi
    exact absurd hi (Nat.not_lt_zero i)
  · intro l s hr hg _ hi
    refine hi.step (sys_effect hg) fun w m hw => ?_
    have hlife := ThreadState.life_of_reachable (thread_of_reachable hr)
    exact hlife.workers.live w (live_of_invoking hr hw)

/-- A call is entered when the worker takes its message. -/
theorem entered_of_step (h : SysEffect l s s') (he : EnterInv s) (he' : EnterInv s') {i : ℕ}
    (hi : (s'.state i).entered = true) :
    (s.state i).entered = true ∨ ∃ w x, (s.thread.worker w).pc = .got x := by
  have hmem := (he' i).mp hi
  have hsame : s'.thread.invoked = s.thread.invoked → (s.state i).entered = true := by
    intro hinv
    rw [hinv] at hmem
    exact (he i).mpr hmem
  cases h with
  | thread k hl hg hk hno =>
    left
    apply hsame
    rcases ThreadState.invoked_of_step (ThreadState.step_effect sqliteConfig hg) with
      hinv | ⟨w, x, m, hlab, hw, hx, -⟩
    · exact hinv
    · rw [hno w x hlab] at hx
      cases hx
  | enter w x m hl hw => exact Or.inr ⟨w, x, hw⟩
  | _ => exact Or.inl (hsame rfl)

/-- While a program runs, no message that it dispatched has been invoked. -/
def NestedInv (s : Sys V) : Prop :=
  ∀ i p, i < s.ncalls → (s.calls i).program = some p → (s.state p).targetRunning = true →
    (s.state i).entered = false

theorem NestedInv.step (hr : (sysLts V).ReachableWhen Joined s)
    (hg : guard l s) (he' : EnterInv (update l s)) (hi : NestedInv s) :
    NestedInv (update l s) := by
  have heff := sys_effect hg
  intro i p hlt hp hrun
  by_contra hent
  have hent : ((update l s).state i).entered = true := by simpa using hent
  by_cases hold : i < s.ncalls
  · rw [(origin_of_step heff hold).2] at hp
    -- the program was running before: a target that starts now has issued nothing
    have hrun' : (s.state p).targetRunning = true := by
      rcases started_of_reachable hr hg with ⟨-, hsame⟩ | ⟨q, j, -, -, hj, -, hother, -⟩
      · exact (hsame p).2 hrun
      · have hne : p ≠ j := by
          rintro rfl
          rw [((program_of_reachable hr).program i p hold hp).2] at hj
          cases hj
        rw [hother p hne] at hrun
        exact hrun
    rcases entered_of_step heff (enter_of_reachable hr) he' hent with hent' | ⟨w, x, hw⟩
    · rw [hi i p hold hp hrun'] at hent'
      cases hent'
    · -- the worker that takes a message is not inside the program
      rcases invoke_of_reachable hr p (CallState.inInvoke_of_running hrun') with ⟨v, hv⟩
      have hlife := ThreadState.life_of_reachable (thread_of_reachable hr)
      have hvw := hlife.workers.live_unique (live_of_invoking hr hv) (hlife.live_of_got hw)
      subst hvw
      rw [hv] at hw
      cases hw
  · rcases issued_of_step heff hlt hold with ⟨rfl, -, t, st, -, hcall, hst⟩
    rw [state, hcall] at hent
    rcases hst with hst | ⟨w, -, hin, -⟩
    · cases hst <;> cases hent
    · rw [hin] at hent
      cases hent

theorem nested_of_reachable (h : (sysLts V).ReachableWhen Joined s) :
    NestedInv s := by
  refine h.induct ?_ ?_
  · rintro s rfl i p hi
    exact absurd hi (Nat.not_lt_zero i)
  · intro l s hr hg hok hi
    exact hi.step hr hg (enter_of_reachable (hr.next hg hok))

/-! ## The order of starts -/

/-- The last start was made for the program that runs. -/
def LastInv (s : Sys V) : Prop :=
  ∀ p, (s.state p).targetRunning = true → ∃ front x, s.started = front ++ [x] ∧ x.program = p

theorem LastInv.step (hr : (sysLts V).ReachableWhen Joined s) (hg : guard l s) (hok : Joined l s)
    (hi : LastInv s) : LastInv (update l s) := by
  intro p hrun
  rcases started_of_reachable hr hg with ⟨hsame, hst⟩ | ⟨q, j, happ, -, hj, -, hother, hstarts⟩
  · rw [hsame]
    exact hi p ((hst p).2 hrun)
  · -- the start is made for a program that runs, and no second one does
    have hq : ((update l s).state q).targetRunning = true := by
      rcases hstarts with ⟨w, rfl, -, -, hrun'⟩ | ⟨w, m, rfl, -, -, hrun', -, -⟩
      · exact hrun'
      · have hne : q ≠ s.ncalls := by
          rintro rfl
          rw [CallState.hasStarted_of_running hrun'] at hj
          cases hj
        rw [hother q hne]
        exact hrun'
    exact ⟨s.started, ⟨q, j⟩, happ, one_target (hr.next hg hok) hq hrun⟩

theorem last_of_reachable (h : (sysLts V).ReachableWhen Joined s) : LastInv s := by
  refine h.induct ?_ ?_
  · rintro s rfl p hrun
    cases hrun
  · intro l s hr hg hok hi
    exact hi.step hr hg hok

/-- The starts of one program form one block. -/
def BlockInv (s : Sys V) : Prop := Grouped Start.program s.started

theorem BlockInv.step (hr : (sysLts V).ReachableWhen Joined s) (hg : guard l s)
    (hi : BlockInv s) : BlockInv (update l s) := by
  unfold BlockInv
  rcases started_of_reachable hr hg with ⟨hsame, -⟩ | ⟨q, j, happ, -, hj, -, -, hstarts⟩
  · rw [hsame]
    exact hi
  · rw [happ]
    apply Grouped.concat hi
    rcases hstarts with ⟨w, rfl, -⟩ | ⟨w, m, rfl, -, -, hrun, -⟩
    · -- nothing was started for a message whose target was not
      left
      intro x hx heq
      have hpx : x.program = q := heq
      have hstart := start_of_reachable hr
      have hlt := hstart.lt (birth_of_reachable hr) hx
      rcases hstart.key x hx with ⟨-, hkey⟩ | ⟨-, hkey⟩
      · have hmem := (hstart.mem x.call).mp (List.mem_map_of_mem hx)
        rw [← hkey, hpx, hj] at hmem
        cases hmem
      · have hp := ((program_of_reachable hr).program x.call x.program hlt hkey).2
        rw [hpx, hj] at hp
        cases hp
    · right
      rcases last_of_reachable hr q hrun with ⟨front, x, hlast, hx⟩
      exact ⟨front, x, hlast, hx⟩

theorem block_of_reachable (h : (sysLts V).ReachableWhen Joined s) : BlockInv s := by
  refine h.induct ?_ ?_
  · rintro s rfl
    exact grouped_nil _
  · intro l s hr hg _ hi
    exact hi.step hr hg

/-- The messages whose targets have been started, in the order of the starts. -/
def messageStarts (s : Sys V) : List ℕ :=
  (s.started.filter fun x => x.program = x.call).map Start.call

theorem messageStarts_sublist (s : Sys V) : s.messageStarts.Sublist (s.started.map Start.call) :=
  List.filter_sublist.map _

theorem mem_messageStarts {ok : SysLabel V → Sys V → Prop} (h : (sysLts V).ReachableWhen ok s)
    {i : ℕ} :
    i ∈ s.messageStarts ↔ (s.state i).hasStarted = true ∧ (s.state i).kind ≠ .inPlace := by
  have hstart := start_of_reachable h
  constructor
  · intro hmem
    rcases List.mem_map.mp hmem with ⟨x, hx, rfl⟩
    rcases List.mem_filter.mp hx with ⟨hx, hkey⟩
    have hkey : x.program = x.call := by simpa using hkey
    refine ⟨(hstart.mem x.call).mp (List.mem_map_of_mem hx), ?_⟩
    rcases hstart.key x hx with ⟨hk, -⟩ | ⟨-, hp⟩
    · exact hk
    · -- a function is run in place for an earlier call
      have hlt := hstart.lt (birth_of_reachable h) hx
      have hless := ((program_of_reachable h).program x.call x.program hlt hp).1
      omega
  · intro ⟨hst, hk⟩
    rcases List.mem_map.mp ((hstart.mem i).mpr hst) with ⟨x, hx, rfl⟩
    rcases hstart.key x hx with ⟨-, hkey⟩ | ⟨hin, -⟩
    · exact List.mem_map_of_mem (List.mem_filter.mpr ⟨hx, by simpa using hkey⟩)
    · exact absurd hin hk

/-- Targets are started in the order in which their messages were invoked. -/
def TurnInv (s : Sys V) : Prop := s.messageStarts.Sublist (s.thread.invoked.map (·.id))

theorem TurnInv.step (hr : (sysLts V).ReachableWhen Joined s) (hg : guard l s)
    (hi : TurnInv s) : TurnInv (update l s) := by
  have hgrow : s.messageStarts.Sublist ((update l s).thread.invoked.map (·.id)) := by
    refine hi.trans (List.Sublist.map _ ?_)
    rcases thread_step (sys_effect hg) with hsame | ⟨k, -, hgk, -, hupd⟩
    · rw [hsame]
    · rw [hupd]
      rcases ThreadState.invoked_of_step (ThreadState.step_effect sqliteConfig hgk) with
        hinv | ⟨w, x, m, -, -, -, hinv⟩
      · rw [hinv]
      · rw [hinv]
        exact List.sublist_append_left _ _
  unfold TurnInv
  rcases started_of_reachable hr hg with ⟨hsame, -⟩ | ⟨q, j, happ, hth, hj, -, -, hstarts⟩
  · have hms : (update l s).messageStarts = s.messageStarts := by simp only [messageStarts, hsame]
    rw [hms]
    exact hgrow
  · rcases hstarts with ⟨w, rfl, hw, -⟩ | ⟨w, m, rfl, -, -, hrun, -⟩
    · -- the live worker is inside `Invoke` for the message that was invoked last
      have hms : (update l s).messageStarts = s.messageStarts ++ [q] := by
        simp [messageStarts, happ]
      have hhandler := ThreadState.handler_of_reachable (joined_thread hr)
      rcases hhandler.latest w _ (live_of_invoking hr hw) hw with ⟨front, hfront⟩
      have hfresh : q ∉ s.messageStarts := by
        intro hmem
        rw [((mem_messageStarts hr).mp hmem).1] at hj
        cases hj
      unfold TurnInv at hi
      rw [hfront, List.map_append] at hi
      rw [hms, hth, hfront, List.map_append]
      exact (sublist_of_concat hi hfresh).append (List.Sublist.refl [q])
    · have hne : q ≠ s.ncalls := by
        rintro rfl
        rw [CallState.hasStarted_of_running hrun] at hj
        cases hj
      have hms : (update l s).messageStarts = s.messageStarts := by
        simp [messageStarts, happ, hne]
      rw [hms]
      exact hgrow

theorem turn_of_reachable (h : (sysLts V).ReachableWhen Joined s) : TurnInv s := by
  refine h.induct ?_ ?_
  · rintro s rfl
    exact List.Sublist.refl []
  · intro l s hr hg _ hi
    exact hi.step hr hg

/-! ## The calls of one program -/

/-- A function that runs in place is started with its call, so before every
later call. -/
def InlineInv (s : Sys V) : Prop :=
  ∀ i j, i < j → (s.state i).kind = .inPlace → (s.state j).hasStarted = true →
    Precedes (s.started.map Start.call) i j

theorem InlineInv.step {ok : SysLabel V → Sys V → Prop} (hr : (sysLts V).ReachableWhen ok s)
    (hg : guard l s) (hi : InlineInv s) : InlineInv (update l s) := by
  intro i j hij hin hst
  have heff := sys_effect hg
  have hstart := start_of_reachable hr
  have hb := birth_of_reachable hr
  have hborn : (s.state j).hasStarted = true ∨ (s.state j).entered = true → j < s.ncalls := by
    intro hj
    refine hb.lt fun hun => ?_
    rw [hun] at hj
    rcases hj with hj | hj <;> cases hj
  -- a call that was started before belongs to the past, and so do the calls before it
  have hpast : (s.state j).hasStarted = true → Precedes (s.started.map Start.call) i j := by
    intro hj
    rw [kind_of_step heff (hij.trans (hborn (Or.inl hj)))] at hin
    exact hi i j hij hin hj
  rcases started_of_reachable hr hg with ⟨hsame, hall⟩ | ⟨q, k, happ, -, -, -, hother, hstarts⟩
  · rw [hsame]
    exact hpast ((hall j).1 ▸ hst)
  · rw [happ, List.map_append]
    by_cases hjk : j = k
    · subst hjk
      have hlt : i < s.ncalls := by
        rcases hstarts with ⟨w, -, -, hent, -⟩ | ⟨w, m, rfl, -⟩
        · have hj := hborn (Or.inr hent)
          omega
        · exact hij
      rw [kind_of_step heff hlt] at hin
      exact precedes_concat ((hstart.mem i).mpr (CallState.hasStarted_of_inPlace hin)) j
    · rw [hother j hjk] at hst
      exact (hpast hst).append _

theorem inline_of_reachable {ok : SysLabel V → Sys V → Prop} (h : (sysLts V).ReachableWhen ok s) :
    InlineInv s := by
  refine h.induct ?_ ?_
  · rintro s rfl i j - hi
    cases hi
  · intro l s hr hg _ hi
    exact hi.step hr hg

/-- It is also started before every future call that the program made earlier:
their messages wait until the program has returned. -/
def OvertakeInv (s : Sys V) : Prop :=
  ∀ i j p, i < j → j < s.ncalls → (s.calls i).program = some p → (s.calls j).program = some p →
    (s.state i).kind = .future → (s.state j).kind = .inPlace → (s.state i).hasStarted = true →
    Precedes (s.started.map Start.call) j i

/-- A function is run in place by the program that made the calls before it, so
none of their messages has been invoked. -/
theorem not_started_of_inPlace (hr : (sysLts V).ReachableWhen Joined s) (hg : guard l s) {i p : ℕ}
    (hi : i < s.ncalls) (hnew : s.ncalls < (update l s).ncalls)
    (hpi : (s.calls i).program = some p)
    (hpj : ((update l s).calls s.ncalls).program = some p)
    (hkj : ((update l s).state s.ncalls).kind = .inPlace) : (s.state i).entered = false := by
  rcases (issued_of_step (sys_effect hg) hnew (lt_irrefl _)).2.2 with ⟨t, st, hact, hcall, hst⟩
  have hworker : ∃ w, t = .worker w := by
    rcases hst with hst | ⟨w, ht, -⟩
    · rw [state, hcall] at hkj
      cases hst <;> cases hkj
    · exact ⟨w, ht⟩
  rcases hworker with ⟨w, rfl⟩
  rcases program_of_mayAct hact with ⟨m, -, hm, hrun⟩
  have hmp : m.id = p := by
    rw [hcall] at hpj
    have hprog : s.programOf (.worker w) = some p := hpj
    rw [hm] at hprog
    simpa using hprog
  exact nested_of_reachable hr i p hi hpi (hmp ▸ hrun)

theorem OvertakeInv.step (hr : (sysLts V).ReachableWhen Joined s) (hg : guard l s)
    (hi : OvertakeInv s) : OvertakeInv (update l s) := by
  intro i j p hij hj hpi hpj hki hkj hst
  have heff := sys_effect hg
  have hstart := start_of_reachable hr
  by_cases hold : j < s.ncalls
  · have hlt : i < s.ncalls := by omega
    rw [(origin_of_step heff hlt).2] at hpi
    rw [(origin_of_step heff hold).2] at hpj
    rw [kind_of_step heff hlt] at hki
    rw [kind_of_step heff hold] at hkj
    have hpast := hi i j p hij hold hpi hpj hki hkj
    rcases started_of_reachable hr hg with ⟨hsame, hall⟩ | ⟨q, k, happ, -, -, -, hother, -⟩
    · rw [hsame]
      exact hpast ((hall i).1 ▸ hst)
    · rw [happ, List.map_append]
      by_cases hik : i = k
      · subst hik
        exact precedes_concat ((hstart.mem j).mpr (CallState.hasStarted_of_inPlace hkj)) i
      · rw [hother i hik] at hst
        exact (hpast hst).append _
  · -- `j` is called now
    exfalso
    rcases issued_of_step heff hj hold with ⟨rfl, -⟩
    rw [(origin_of_step heff hij).2] at hpi
    have hent := not_started_of_inPlace hr hg hij hj hpi hpj hkj
    rw [kind_of_step heff hij] at hki
    have hst' : (s.state i).hasStarted = true := by
      rcases started_of_reachable hr hg with ⟨-, hall⟩ | ⟨q, k, -, -, -, -, hother, hstarts⟩
      · exact (hall i).1 ▸ hst
      · have hne : i ≠ k := by
          rintro rfl
          rcases hstarts with ⟨v, -, -, hent', -⟩ | ⟨v, n, heq, -⟩
          · rw [hent] at hent'
            cases hent'
          · omega
        rw [hother i hne] at hst
        exact hst
    rw [CallState.entered_of_hasStarted hst' (by simp [hki])] at hent
    cases hent

theorem overtake_of_reachable (h : (sysLts V).ReachableWhen Joined s) : OvertakeInv s := by
  refine h.induct ?_ ?_
  · rintro s rfl i j p - hj
    exact absurd hj (Nat.not_lt_zero j)
  · intro l s hr hg _ hi
    exact hi.step hr hg

end Sys

end AsyncSqlite
