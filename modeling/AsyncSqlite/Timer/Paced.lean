import AsyncSqlite.Timer.Gate

/-!
# AsyncSqlite.Timer.Paced — one tick in flight

At most one message of a `TimerDelegate` is queued or executed, and its gate is
closed exactly while a message exists, over every way in which a message can
end: it is executed, refused, timed out, left by an exception, or destroyed with
the queues (`one_tick_in_flight`).
-/

namespace AsyncSqlite

namespace PacedSys

variable {cfg : Config} {made : ℕ → TimerDelegate} {s : PacedSys}

/-! ## The gate -/

/-- The messages of the clone `k` that are queued or executed. -/
def ticks (s : PacedSys) (k : ℕ) : List DelegateMsg :=
  s.thread.outstanding.filter fun m => s.source m.id = some k

/-- An outstanding message of a clone is one that its `operator()` made. -/
theorem GateInv.of_mem_ticks (h : GateInv s) (hs : s.thread.Sound) {k : ℕ} {m : DelegateMsg}
    (hm : m ∈ s.ticks k) : s.source m.id = some k ∧ m = tickMsg m.id ∧ ¬ s.msg.expired m.id := by
  obtain ⟨hout, hsrc⟩ := List.mem_filter.mp hm
  have hsrc' : s.source m.id = some k := by simpa using hsrc
  have hne : s.source m.id ≠ none := by simp [hsrc']
  have hpushed := ThreadState.mem_pushed_of_outstanding hs hout
  have heq : m = tickMsg m.id := h.genuine hs (Or.inl hpushed) hne
  refine ⟨hsrc', heq, Owners.not_expired_iff.mpr ⟨.threadMsg, ?_⟩⟩
  rw [h.ledger.threadMsg, ← heq]
  refine ⟨hne, ?_⟩
  rcases List.mem_append.mp hout with hp | hr
  · exact Or.inl hp
  · exact Or.inr (Or.inl hr)

/-- A message of a clone exists while it is dispatched, outstanding, or kept by a
handler that threw. -/
theorem GateInv.exists_message_iff (h : GateInv s) (hs : s.thread.Sound) (k : ℕ) :
    (∃ i, s.source i = some k ∧ ¬ s.msg.expired i) ↔
      (∃ i rest, s.timers = .dispatching k i rest) ∨ s.ticks k ≠ [] ∨
        ∃ i ∈ s.thrown, s.source i = some k := by
  constructor
  · rintro ⟨i, hsrc, hexp⟩
    have hmem : tickMsg i ∈ s.thread.pending ∨ tickMsg i ∈ s.thread.running → s.ticks k ≠ [] := by
      intro hat
      refine List.ne_nil_of_mem (a := tickMsg i) ?_
      exact List.mem_filter.mpr ⟨List.mem_append.mpr hat, decide_eq_true hsrc⟩
    obtain ⟨w, hw⟩ := Owners.not_expired_iff.mp hexp
    -- whoever shares the message tells where it is
    cases w with
    | call =>
      have hcall := (h.call i k hsrc).mp hw
      cases ht : s.timers with
      | dispatching k' i' rest =>
        rw [ht] at hcall
        cases hcall
        exact Or.inl ⟨i, rest, rfl⟩
      | _ =>
        rw [ht] at hcall
        cases hcall
    | threadMsg =>
      rcases ((h.ledger.threadMsg i).mp hw).2 with hat | hat | hat
      · exact Or.inr (Or.inl (hmem (Or.inl hat)))
      · exact Or.inr (Or.inl (hmem (Or.inr hat)))
      · exact Or.inr (Or.inr ⟨i, hat, hsrc⟩)
    | handler =>
      rcases ((h.ledger.handler i).mp hw).2 with hat | hat
      · exact Or.inr (Or.inl (hmem (Or.inr hat)))
      · exact Or.inr (Or.inr ⟨i, hat, hsrc⟩)
  · rintro (⟨i, rest, ht⟩ | hne | ⟨i, hth, hsrc⟩)
    · have hcall : s.timers.call = some (k, i) := by
        rw [ht]
        rfl
      have hsrc := h.caller k i hcall
      exact ⟨i, hsrc, Owners.not_expired_iff.mpr ⟨_, (h.call i k hsrc).mpr hcall⟩⟩
    · obtain ⟨m, hm⟩ := List.exists_mem_of_ne_nil _ hne
      obtain ⟨hsrc, -, hexp⟩ := h.of_mem_ticks hs hm
      exact ⟨m.id, hsrc, hexp⟩
    · have hne : s.source i ≠ none := by simp [hsrc]
      refine ⟨i, hsrc, Owners.not_expired_iff.mpr ⟨.handler, ?_⟩⟩
      exact (h.ledger.handler i).mpr ⟨hne, Or.inr hth⟩

/-- Two messages of a clone that exist are one. -/
theorem GateInv.unique (h : GateInv s) {k i j : ℕ} (hi : s.source i = some k)
    (hj : s.source j = some k) (hei : ¬ s.msg.expired i) (hej : ¬ s.msg.expired j) : i = j := by
  have hgi := h.gate i k hi hei
  rw [h.gate j k hj hej] at hgi
  exact (Option.some.inj hgi).symm

theorem GateInv.ticks_length (h : GateInv s) (hs : s.thread.Sound) (k : ℕ) :
    (s.ticks k).length ≤ 1 := by
  have hnodup : (s.ticks k).Nodup :=
    (ThreadState.outstanding_nodup hs.life.workers hs.history hs.handler).filter _
  have hsame : ∀ a ∈ s.ticks k, ∀ b ∈ s.ticks k, a = b := by
    intro a ha b hb
    obtain ⟨hsa, heqa, hea⟩ := h.of_mem_ticks hs ha
    obtain ⟨hsb, heqb, heb⟩ := h.of_mem_ticks hs hb
    rw [heqa, heqb, h.unique hsa hsb hea heb]
  -- two messages of the clone would be one, twice in the list
  match hl : s.ticks k with
  | [] => simp
  | [a] => simp
  | a :: b :: l =>
    rw [hl] at hnodup hsame
    have hab := hsame a (by simp) b (by simp)
    simp [hab] at hnodup

/-- There is always a number for the next message. -/
theorem fresh_number (h : (pacedLts cfg made).Reachable s) :
    ∃ n, ∀ i, n ≤ i → s.source i = none ∧ s.thread.dispatch i = .idle := by
  refine h.induct (P := fun s => ∃ n, ∀ i, n ≤ i → s.source i = none ∧
    s.thread.dispatch i = .idle) ?_ ?_
  · rintro s rfl
    exact ⟨0, fun i _ => ⟨rfl, rfl⟩⟩
  · rintro l s hr hg - ⟨n, hn⟩
    have hkeep : (update cfg l s).source = s.source → (update cfg l s).thread = s.thread →
        ∃ n, ∀ i, n ≤ i → (update cfg l s).source i = none ∧
          (update cfg l s).thread.dispatch i = .idle := by
      intro hsrc hth
      rw [hsrc, hth]
      exact ⟨n, hn⟩
    cases l with
    -- one call of `DispatchDelegate` gets a state at most
    | thread l =>
      have hsrc : (s.threadStep cfg l).source = s.source :=
        (apply_eq s (ThreadState.event cfg l s.thread)).2.1
      obtain ⟨x, hx⟩ := ThreadState.dispatch_frame (ThreadState.step_effect cfg hg.1)
      refine ⟨max n (x + 1), fun i hi => ?_⟩
      have hle : n ≤ i ∧ x < i := by omega
      show (s.threadStep cfg l).source i = none ∧ _
      rw [hsrc]
      exact ⟨(hn i hle.1).1, (hx i (by omega)).trans (hn i hle.1).2⟩
    -- the tick takes its number
    | tick j now =>
      show ∃ n, ∀ i, n ≤ i → (s.tick j now).source i = none ∧
        (s.tick j now).thread.dispatch i = .idle
      have hnext := hg.1
      unfold next at hnext
      split at hnext
      · rename_i k rest ht
        rcases tick_cases s j now ht with ⟨-, heq⟩ | ⟨-, heq⟩
        · rw [heq]
          exact ⟨n, hn⟩
        · rw [heq]
          refine ⟨max n (j + 1), fun i hi => ?_⟩
          have hle : n ≤ i ∧ i ≠ j := by omega
          simp only [Function.update_of_ne hle.2]
          exact hn i hle.1
      · exact absurd rfl hnext
    | tickReturn =>
      show ∃ n, ∀ i, n ≤ i → s.tickReturn.source i = none ∧ s.tickReturn.thread.dispatch i = .idle
      unfold tickReturn
      split
      · split
        · exact ⟨n, hn⟩
        · exact ⟨n, hn⟩
      · exact ⟨n, hn⟩
    | _ => exact hkeep rfl rfl

/-- **Paced dispatch.** At most one message of a clone is queued or executed.
Its gate is closed exactly while such a message exists: while `operator()`
dispatches it, the target thread has it, or a handler that threw keeps it. When
`ProcessTimers` comes to the clone it can call it, and the call dispatches again
exactly if no message is left. -/
theorem one_tick_in_flight (h : (pacedLts cfg made).Reachable s) (k : ℕ) :
    (s.ticks k).length ≤ 1 ∧
      ((s.delegate k).gate.isInFlight s.token ↔
        (∃ i rest, s.timers = .dispatching k i rest) ∨ s.ticks k ≠ [] ∨
          ∃ i ∈ s.thrown, s.source i = some k) ∧
      ∀ rest, s.timers = .invoking (k :: rest) →
        (∃ i, ∀ now, guard (.tick i now) s) ∧
          ∀ i now, guard (.tick i now) s →
            ((update cfg (.tick i now) s).timers = .dispatching k i rest ↔
              s.ticks k = [] ∧ ∀ j ∈ s.thrown, s.source j ≠ some k) := by
  have hi := gate_of_reachable h
  have hs := ThreadState.sound_of_reachable (thread_of_reachable h)
  have hgate : (s.delegate k).gate.isInFlight s.token ↔
      (∃ i rest, s.timers = .dispatching k i rest) ∨ s.ticks k ≠ [] ∨
        ∃ i ∈ s.thrown, s.source i = some k :=
    (hi.isInFlight_iff k).trans (hi.exists_message_iff hs k)
  refine ⟨hi.ticks_length hs k, hgate, ?_⟩
  intro rest ht
  have hnext : s.next ≠ none := by simp [next, ht]
  constructor
  · obtain ⟨n, hn⟩ := fresh_number h
    exact ⟨n, fun now => ⟨hnext, hn n (Nat.le_refl n)⟩⟩
  · intro i now hg
    have hidle : ¬ ∃ i rest, s.timers = .dispatching k i rest := by
      rintro ⟨i, rest', heq⟩
      rw [ht] at heq
      cases heq
    show (s.tick i now).timers = .dispatching k i rest ↔ _
    rcases tick_cases s i now ht with ⟨hclosed, heq⟩ | ⟨hopen, heq⟩
    · -- the gate is closed, and so a message is left
      rw [heq]
      have hleft := (hgate.mp hclosed).resolve_left hidle
      simp only [reduceCtorEq, false_iff]
      rintro ⟨hnil, hno⟩
      rcases hleft with hne | ⟨j, hj, hsrc⟩
      · exact hne hnil
      · exact hno j hj hsrc
    · rw [heq]
      rw [hgate] at hopen
      simp only [true_iff]
      constructor
      · by_contra hne
        exact hopen (Or.inr (Or.inl hne))
      · intro j hj hsrc
        exact hopen (Or.inr (Or.inr ⟨j, hj, hsrc⟩))

/-- The target thread is created and a delegate is connected to a timer. -/
def connectRun : List PacedLabel :=
  [.thread .createThread, .thread .createClear, .thread .createSpawn, .thread (.processStart 0),
    .thread (.createStart 0), .connect 0]

/-- `DispatchDelegate` of the message `i` up to its critical section. -/
def dispatchRun (i : ℕ) : List PacedLabel :=
  [.thread (.dispatchDelegate (tickMsg i)), .thread (.dispatchHasValue (tickMsg i)),
    .thread (.dispatchLocked (tickMsg i)), .tickReturn]

/-- The timer expires and `ProcessTimers` calls its delegate. -/
def expireRun (i now : ℕ) : List PacedLabel :=
  [.processTimers, .getSnapshot 0, .unlock, .tick i now]

/-- The worker pops the message `i` and executes it. -/
def executeRun (i : ℕ) : List PacedLabel :=
  [.thread (.processLoop 0), .thread (.processTake 0),
    .thread (.processSwitch 0 (.delegate (tickMsg i))), .thread (.invokeReturn 0 (tickMsg i))]

/-- A tick is dispatched, the next one finds it queued, and it is executed before
the third one. -/
def pacedRun : List PacedLabel :=
  connectRun ++ expireRun 0 1 ++ dispatchRun 0 ++ [PacedLabel.release] ++
    expireRun 1 2 ++ [PacedLabel.release] ++
    executeRun 0 ++ [PacedLabel.processTimers, .getSnapshot 0, .unlock]

theorem one_tick_in_flight_run :
    ∃ s, (pacedLts ⟨1, .drop⟩ fun _ => ⟨0, false, .initial⟩).Reachable s ∧
      (update ⟨1, .drop⟩ (.tick 1 3) s).timers = .dispatching 0 1 [] := by
  obtain ⟨s, hr, hp⟩ := (pacedLts ⟨1, .drop⟩ fun _ => ⟨0, false, .initial⟩).execWhen_reachable
    Lts.always rfl pacedRun (fun s => guard (.tick 1 3) s ∧ s.timers = .invoking [0] ∧
      s.ticks 0 = [] ∧ s.thrown = []) (by decide)
  obtain ⟨hg, ht, hnil, hth⟩ : _ ∧ _ ∧ _ ∧ _ := of_decide_eq_true hp
  have hpaced := (one_tick_in_flight hr 0).2.2 [] ht
  exact ⟨s, hr, (hpaced.2 1 3 hg).mpr ⟨hnil, by simp [hth]⟩⟩

end PacedSys

end AsyncSqlite
