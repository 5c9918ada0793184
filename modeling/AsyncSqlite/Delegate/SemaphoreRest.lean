import AsyncSqlite.Lts.Rank
import AsyncSqlite.Delegate.Semaphore

/-!
# AsyncSqlite.Delegate.SemaphoreRest — no signal is lost

The threads of a semaphore come to rest: without a new call they take a bounded
number of steps, however the clock ticks (`rank_lowers`), since each turn of a
waiter costs a token. With the flag up they rest outside `Wait`
(`SemaphoreInv.rest`), because unlocking and blocking are two steps but the
token is kept in between. Together: a signal that somebody waits for makes some
`Wait` return true (`signal_not_lost`).
-/

namespace AsyncSqlite

namespace SemaphoreSys

variable {w : ℕ} {W G : Type} [DecidableEq W] [DecidableEq G] {P : TokenPort w}
  {s : SemaphoreSys w W G}

/-- No new call. -/
def NoCall : SemaphoreLabel w W G → Prop
  | .wait _ _ | .signal _ => False
  | _ => True

/-- The steps that the threads take by themselves. -/
def Running : SemaphoreLabel w W G → Prop
  | .tick | .wait _ _ | .signal _ => False
  | _ => True

instance : DecidablePred (Running : SemaphoreLabel w W G → Prop)
  | .tick | .wait _ _ | .signal _ => inferInstanceAs (Decidable False)
  | .lock _ _ | .start _ _ | .test _ _ | .block _ _ _ | .take _ _ _ | .expire _ _ _
  | .relock _ _ _ | .last _ _ | .lockSignal _ | .set _ | .notify _ =>
    inferInstanceAs (Decidable True)

/-- Steps that a waiter takes at most until it has to wait for a token. -/
def waiterRank : WaiterPc w → ℕ
  | .idle => 0
  | .expired _ => 1
  | .relocking _ false => 2
  | .taking _ _ => 3
  | .unlocked _ _ => 4
  | .testing _ => 5
  | .entered _ | .relocking _ true => 6
  | .entering _ => 7

def signalRank : SignalPc → ℕ
  | .idle => 0
  | .notifying => 5
  | .locked => 6
  | .locking => 7

/-- A token is worth one turn of a waiter. -/
def rank [Fintype W] [Fintype G] (s : SemaphoreSys w W G) : ℕ :=
  (∑ i, waiterRank (s.waiter i)) + (∑ j, signalRank (s.signaler j)) + 4 * s.tokens

section Rest

variable [Fintype W] [Fintype G]

omit [DecidableEq G] in
theorem rank_waiter (i : W) (pc : WaiterPc w) :
    rank { s with waiter := Function.update s.waiter i pc } + waiterRank (s.waiter i) =
      rank s + waiterRank pc := by
  have hsum := sum_comp_update waiterRank s.waiter i pc
  unfold rank
  dsimp only
  omega

omit [DecidableEq W] in
theorem rank_signaler (j : G) (pc : SignalPc) :
    rank { s with signaler := Function.update s.signaler j pc } + signalRank (s.signaler j) =
      rank s + signalRank pc := by
  have hsum := sum_comp_update signalRank s.signaler j pc
  unfold rank
  dsimp only
  omega

omit [DecidableEq W] [DecidableEq G] in
theorem rank_tokens (n : ℕ) : rank { s with tokens := n } + 4 * s.tokens = rank s + 4 * n := by
  unfold rank
  dsimp only
  omega

omit [DecidableEq G] in
theorem rank_waiter_lt {i : W} {pc : WaiterPc w}
    (hlt : waiterRank pc < waiterRank (s.waiter i)) :
    rank { s with waiter := Function.update s.waiter i pc } < rank s := by
  have hrank := rank_waiter (s := s) i pc
  omega

omit [DecidableEq G] in
theorem rank_finish (i : W) (t : Option (WaitFor w)) :
    rank (finish i t s) = rank { s with waiter := Function.update s.waiter i .idle } := by
  unfold finish
  split
  · rfl
  · rfl

omit [DecidableEq G] in
/-- A turn of the loop ends the wait or goes to sleep. -/
theorem rank_turn {i : W} {t : Option (WaitFor w)} (hpc : s.waiter i = .testing t) :
    rank (turn i t s) < rank s := by
  have hdone : rank (finish i t s) < rank s := by
    rw [rank_finish]
    apply rank_waiter_lt
    rw [hpc]
    exact Nat.succ_pos 4
  have hsleep : ∀ r, rank { s with waiter := Function.update s.waiter i (.unlocked t r) } <
      rank s := by
    intro r
    apply rank_waiter_lt
    rw [hpc]
    exact Nat.lt_succ_self 4
  unfold turn
  split
  · exact hdone
  · cases t with
    | none => exact hsleep none
    | some u =>
      dsimp only
      split
      · exact hdone
      · exact hsleep _

theorem rank_lowers : (semaphoreLts P W G).Lowers Running rank := by
  intro l s hl hg
  change rank (update P l s) < rank s
  cases l with
  | tick | wait i timeout | signal j => exact absurd hl id
  | lock i timeout =>
    refine rank_waiter_lt (s := s) (i := i) ?_
    rw [hg.2]
    exact Nat.lt_succ_self 6
  | start i timeout =>
    have hpc : s.waiter i = .entered timeout := hg
    refine rank_waiter_lt (s := s) (i := i) ?_
    rw [hpc]
    exact Nat.lt_succ_self 5
  | test i t => exact rank_turn hg
  | block i t r =>
    have hpc : s.waiter i = .unlocked t r := hg
    refine rank_waiter_lt (s := s) (i := i) ?_
    rw [hpc]
    exact Nat.lt_succ_self 3
  | take i t d =>
    -- the token that is gone pays for the turn that follows
    have hmove := rank_waiter (s := s) i (.relocking t true)
    have htoken := rank_tokens (s := { s with
      waiter := Function.update s.waiter i (.relocking t true) }) (s.tokens - 1)
    have hpos := hg.1
    rw [hg.2] at hmove
    simp only [waiterRank] at hmove
    simp only [update]
    dsimp only at htoken
    omega
  | expire i t d =>
    refine rank_waiter_lt (s := s) (i := i) ?_
    rw [hg.2.1]
    exact Nat.lt_succ_self 2
  | relock i t res =>
    refine rank_waiter_lt (s := s) (i := i) ?_
    rw [hg.2]
    cases res with
    | true => exact Nat.lt_succ_self 5
    | false => exact Nat.lt_succ_self 1
  | last i t =>
    have hpc : s.waiter i = .expired t := hg
    change rank (finish i t s) < rank s
    rw [rank_finish]
    apply rank_waiter_lt
    rw [hpc]
    exact Nat.one_pos
  | lockSignal j =>
    have hmove := rank_signaler (s := s) j .locked
    rw [hg.2] at hmove
    simp only [signalRank] at hmove
    change rank { s with signaler := Function.update s.signaler j .locked } < rank s
    omega
  | set j =>
    have hpc : s.signaler j = .locked := hg
    have hmove := rank_signaler (s := s) j .notifying
    rw [hpc] at hmove
    simp only [signalRank] at hmove
    change rank { s with signaler := Function.update s.signaler j .notifying } < rank s
    omega
  | notify j =>
    have hpc : s.signaler j = .notifying := hg
    have hmove := rank_signaler (s := s) j .idle
    have htoken := rank_tokens (s := { s with
      signaler := Function.update s.signaler j .idle }) (P.give s.tokens)
    have hgive := P.give_le s.tokens
    rw [hpc] at hmove
    simp only [signalRank] at hmove
    simp only [update]
    dsimp only at htoken
    omega

theorem rank_noCall (l : SemaphoreLabel w W G) (s : SemaphoreSys w W G) (hl : NoCall l)
    (hnot : ¬ Running l) (_ : (semaphoreLts P W G).guard l s) :
    rank ((semaphoreLts P W G).update l s) ≤ rank s := by
  cases l with
  | tick => exact Nat.le_refl (rank s)
  | wait i timeout | signal j => exact absurd hl id
  | lock _ _ | start _ _ | test _ _ | block _ _ _ | take _ _ _ | expire _ _ _ | relock _ _ _
  | last _ _ | lockSignal _ | set _ | notify _ => exact absurd trivial hnot

end Rest

theorem SemaphoreInv.lock_free (h : SemaphoreInv P s)
    (hrest : (semaphoreLts P W G).Settled Running s) : s.m_lock = none := by
  cases hlock : s.m_lock with
  | none => rfl
  | some a =>
    -- the holder can go on
    have hin : s.inside a = true := (h.lock a).mpr hlock
    cases a with
    | inl i =>
      have hholds : (s.waiter i).holds = true := hin
      cases hpc : s.waiter i with
      | entered timeout => exact absurd hpc (hrest (.start i timeout) trivial)
      | testing t => exact absurd hpc (hrest (.test i t) trivial)
      | expired t => exact absurd hpc (hrest (.last i t) trivial)
      | idle | entering _ | unlocked _ _ | taking _ _ | relocking _ _ =>
        rw [hpc] at hholds
        cases hholds
    | inr j =>
      have hpc : s.signaler j = .locked := by simpa [inside] using hin
      exact absurd hpc (hrest (.set j) trivial)

/-- With the flag up, threads that have come to rest are all out of `Wait`. -/
theorem SemaphoreInv.rest (h : SemaphoreInv P s)
    (hrest : (semaphoreLts P W G).Settled Running s) (hup : s.m_signaled = true) (i : W) :
    s.waiter i = .idle := by
  have hfree := h.lock_free hrest
  -- nobody is awake and nobody notifies, so there is a token
  have hasleep : ∀ k, s.waiter k = .idle ∨ ∃ t d, s.waiter k = .taking t d := by
    intro k
    cases hpc : s.waiter k with
    | idle => exact Or.inl rfl
    | taking t d => exact Or.inr ⟨t, d, rfl⟩
    | entering timeout => exact absurd ⟨hfree, hpc⟩ (hrest (.lock k timeout) trivial)
    | entered timeout => exact absurd hpc (hrest (.start k timeout) trivial)
    | testing t => exact absurd hpc (hrest (.test k t) trivial)
    | unlocked t r => exact absurd hpc (hrest (.block k t r) trivial)
    | relocking t res => exact absurd ⟨hfree, hpc⟩ (hrest (.relock k t res) trivial)
    | expired t => exact absurd hpc (hrest (.last k t) trivial)
  have htoken : 0 < s.tokens := by
    rcases h.pending hup with htok | ⟨j, hj⟩ | ⟨k, hk⟩
    · exact htok
    · exact absurd hj (hrest (.notify j) trivial)
    · rcases hasleep k with hpc | ⟨t, d, hpc⟩
      · rw [hpc] at hk
        cases hk
      · rw [hpc] at hk
        cases hk
  rcases hasleep i with hidle | ⟨t, d, hpc⟩
  · exact hidle
  · exact absurd ⟨htoken, hpc⟩ (hrest (.take i t d) trivial)

/-- How many waits were successful. -/
def acquired (s : SemaphoreSys w W G) : ℕ := s.log.count .acquire

omit [DecidableEq G] in
theorem update_ne_idle {i k : W} {pc : WaiterPc w} (hpc : pc ≠ .idle)
    (hin : s.waiter i ≠ .idle) : Function.update s.waiter k pc i ≠ .idle := by
  by_cases hik : i = k
  · rw [hik, Function.update_self]
    exact hpc
  · rw [Function.update_of_ne hik]
    exact hin

omit [DecidableEq G] in
theorem acquired_acquire (k : W) : (acquire k s).acquired = s.acquired + 1 := by
  simp [acquired, acquire, List.count_append]

/-- While the flag is up a step takes it down by a successful wait, or the flag
stays up and nobody leaves `Wait`. -/
theorem served_or_waiting {l : SemaphoreLabel w W G} (hg : guard l s) (hup : s.m_signaled = true)
    {i : W} (hin : s.waiter i ≠ .idle) :
    (update P l s).acquired = s.acquired + 1 ∨
      (update P l s).m_signaled = true ∧ (update P l s).waiter i ≠ .idle ∧
        (update P l s).acquired = s.acquired := by
  cases l with
  | tick => exact Or.inr ⟨hup, hin, rfl⟩
  | wait k timeout | lock k timeout | start k timeout | block k t r | take k t d | expire k t d =>
    exact Or.inr ⟨hup, update_ne_idle (by simp) hin, rfl⟩
  | relock k t res =>
    refine Or.inr ⟨hup, update_ne_idle ?_ hin, rfl⟩
    cases res with
    | true => simp
    | false => simp
  | test k t =>
    left
    have hacq : turn k t s = acquire k s := by simp [turn, finish, hup]
    simp only [update, hacq]
    exact acquired_acquire k
  | last k t =>
    left
    have hacq : finish k t s = acquire k s := by simp [finish, hup]
    simp only [update, hacq]
    exact acquired_acquire k
  | signal j | lockSignal j | notify j => exact Or.inr ⟨hup, hin, rfl⟩
  | set j =>
    refine Or.inr ⟨rfl, hin, ?_⟩
    simp [update, acquired, List.count_append]

omit [DecidableEq G] in
theorem acquired_finish (i : W) (t : Option (WaitFor w)) :
    s.acquired ≤ (finish i t s).acquired := by
  unfold finish
  split
  · rw [acquired_acquire]
    exact Nat.le_succ _
  · simp [giveUp, acquired, List.count_append]

theorem acquired_le (l : SemaphoreLabel w W G) : s.acquired ≤ (update P l s).acquired := by
  cases l with
  | test i t =>
    simp only [update, turn]
    split
    · exact acquired_finish i t
    · cases t with
      | none => exact Nat.le_refl _
      | some u =>
        dsimp only
        split
        · exact acquired_finish i (some u)
        · exact Nat.le_refl _
  | last i t => exact acquired_finish i t
  | set j => simp [update, acquired, List.count_append]
  | tick | wait _ _ | lock _ _ | start _ _ | block _ _ _ | take _ _ _ | expire _ _ _
  | relock _ _ _ | signal _ | lockSignal _ | notify _ => exact Nat.le_refl _

theorem acquired_le_run {s' : SemaphoreSys w W G} {ls : List (SemaphoreLabel w W G)}
    (hrun : (semaphoreLts P W G).Run s ls s') : s.acquired ≤ s'.acquired := by
  induction hrun with
  | nil => exact Nat.le_refl _
  | concat _ _ ih => exact ih.trans (acquired_le _)

theorem served_or_waiting_run {s' : SemaphoreSys w W G} {ls : List (SemaphoreLabel w W G)}
    (hrun : (semaphoreLts P W G).Run s ls s') (hup : s.m_signaled = true) {i : W}
    (hin : s.waiter i ≠ .idle) :
    s.acquired < s'.acquired ∨ s'.m_signaled = true ∧ s'.waiter i ≠ .idle := by
  induction hrun with
  | nil => exact Or.inr ⟨hup, hin⟩
  | concat hpre hg ih =>
    rename_i s₁ ls₁ l
    rcases ih with hserved | ⟨hup₁, hin₁⟩
    · exact Or.inl (hserved.trans_le (acquired_le l))
    · have hmono := acquired_le_run hpre
      rcases served_or_waiting (P := P) hg hup₁ hin₁ with hacq | ⟨hup₂, hin₂, -⟩
      · left
        change s.acquired < (update P l s₁).acquired
        omega
      · exact Or.inr ⟨hup₂, hin₂⟩

end SemaphoreSys

open SemaphoreSys

variable {w : ℕ} {P : TokenPort w} {W G : Type} [DecidableEq W] [DecidableEq G]
  {s : SemaphoreSys w W G}

/-- A signal is not lost on a thread inside `Wait`: without new calls the threads
come to rest after a bounded number of steps, and then some `Wait` has returned
true. -/
theorem signal_not_lost [Fintype W] [Fintype G] (hr : (semaphoreLts P W G).Reachable s)
    (hup : s.m_signaled = true) {i : W} (hin : s.waiter i ≠ .idle) {s' : SemaphoreSys w W G}
    {ls : List (SemaphoreLabel w W G)} (hrun : (semaphoreLts P W G).Run s ls s')
    (hls : ∀ l ∈ ls, NoCall l) :
    (ls.countP fun l => Running l) ≤ rank s ∧
      ((semaphoreLts P W G).Settled Running s' →
        s.log.count .acquire < s'.log.count .acquire) := by
  constructor
  · have hcount := hrun.countP_add_rank_le rank_lowers rank_noCall hls
    omega
  · intro hrest
    have h := inv_of_reachable (hr.steps hrun.steps)
    rcases served_or_waiting_run hrun hup hin with hserved | ⟨hup', hin'⟩
    · exact hserved
    · exact absurd (h.rest hrest hup' i) hin'

/-- A thread is between the unlock and the take when the signal comes; a tick is a
millisecond. -/
theorem signal_not_lost_run :
    ∃ (s s' : SemaphoreSys 32 Bool Unit) (ls : List (SemaphoreLabel 32 Bool Unit)),
      s.waiter true = .unlocked none none ∧ s'.waiter true = .idle ∧
      ((ls.countP fun l => Running l) ≤ rank s ∧
        ((semaphoreLts (freeRTOSConditionVariable (BitVec.ofInt 32)) Bool Unit).Settled Running s' →
          s.log.count .acquire < s'.log.count .acquire)) := by
  have hrun : (((semaphoreLts (freeRTOSConditionVariable (BitVec.ofInt 32)) Bool Unit).execWhen
      Lts.always initial [.wait true none, .lock true none, .start true none, .test true none,
        .signal (), .lockSignal (), .set ()]).any fun s =>
      s.m_signaled && s.waiter true = .unlocked none none &&
        ((semaphoreLts (freeRTOSConditionVariable (BitVec.ofInt 32)) Bool Unit).execWhen
          Lts.always s [.notify (), .block true none none, .take true none none,
            .relock true none true, .test true none]).any fun s' =>
              s'.waiter true = .idle) = true := by
    decide +kernel
  rcases (Option.any_eq_true _ _).mp hrun with ⟨s, hs, hp⟩
  simp only [Bool.and_eq_true, decide_eq_true_eq] at hp
  rcases hp with ⟨⟨hup, hpc⟩, hnext⟩
  rcases (Option.any_eq_true _ _).mp hnext with ⟨s', hs', hidle⟩
  have hr : (semaphoreLts (freeRTOSConditionVariable (BitVec.ofInt 32)) Bool Unit).Reachable s :=
    ⟨initial, ⟨0, rfl⟩, Lts.execWhen_steps _ hs⟩
  have hrun' := Lts.exec_run _ _ .nil hs'
  refine ⟨s, s', _, hpc, by simpa using hidle, signal_not_lost hr hup (i := true) ?_ hrun' ?_⟩
  · rw [hpc]
    simp
  · simp [NoCall]

end AsyncSqlite
