import AsyncSqlite.Lts.Owner
import AsyncSqlite.Lts.Run
import AsyncSqlite.Data.Wrapping

/-!
# AsyncSqlite.Delegate.Semaphore — a semaphore over kernel tokens

`Semaphore` of `delegate/Semaphore.h` on the ports whose condition variable is
itself a kernel semaphore: `FreeRTOSConditionVariable` (one token at most) and
`ThreadXConditionVariable` (a count). Unlike `std::condition_variable` they
keep a notification that nobody waited for, and unlocking the mutex and
blocking are two steps.

Any number of threads wait and signal. One step is one access to the mutex or
to the kernel object, with the code under the mutex in between; the clock ticks
at any time, and the code reads it as a counter of `w` bits. A call says its
timeout in milliseconds (`none` for `Duration::max()`), and the port turns it into
ticks; so a wait of 15 ms is over after one tick of 10 ms.

* **The flag** (`flagLts`): what a semaphore is for. Each signal raises a flag,
  a successful wait takes it down, a failed one saw it down.
* **Refinement** (`semaphore_refines`): the log of a run replays on the flag,
  and no wait gives up before the ticks of its timeout have passed, across overflows
  of the counter.
* **ThreadX** (`threadX_gaveUp`): how many ticks these are where the conversion is
  under `port/os`; that of FreeRTOS is a macro of the kernel.

That no signal is lost is in `Delegate.SemaphoreRest`.
-/

namespace AsyncSqlite

/-! ## The flag -/

/-- What a thread did with the semaphore, at the moment it took effect. -/
inductive FlagEvent where
  | signal
  /-- `Wait` returns true -/
  | acquire
  /-- `Wait` returns false -/
  | giveUp
deriving DecidableEq, Repr

def flagLts : Lts Bool FlagEvent where
  init := fun up => up = false
  guard
    | .signal, _ => True
    | .acquire, up => up = true
    | .giveUp, up => up = false
  update
    | .signal, _ => true
    | .acquire, _ => false
    | .giveUp, up => up

/-- There is a signal for each successful wait, and one to spare if the flag is
up. -/
theorem flag_count {up : Bool} {log : List FlagEvent} (h : flagLts.Run false log up) :
    log.count .acquire + up.toNat ≤ log.count .signal := by
  induction h with
  | nil => simp
  | concat _ hg ih =>
    rename_i up log e _
    cases e with
    | signal =>
      have hup := Bool.toNat_le up
      simp [flagLts, List.count_append]
      omega
    | acquire =>
      have hup : up = true := hg
      subst hup
      simpa [flagLts, List.count_append] using ih
    | giveUp => simpa [flagLts, List.count_append] using ih

/-! ## The port -/

/-- What `notify_one` does to the tokens of the kernel semaphore, and `wait_for` to
its timeout. -/
structure TokenPort (w : ℕ) where
  give : ℕ → ℕ
  give_pos : ∀ n, 0 < give n
  give_le : ∀ n, give n ≤ n + 1
  /-- milliseconds to ticks -/
  timeoutTicks : ℤ → BitVec w

/-- `xSemaphoreGive` on a binary semaphore; `pdMS_TO_TICKS` is the kernel's. -/
def freeRTOSConditionVariable {w : ℕ} (pdMS_TO_TICKS : ℤ → BitVec w) : TokenPort w where
  give := fun _ => 1
  give_pos := by
    intro n
    exact Nat.one_pos
  give_le := by
    intro n
    omega
  timeoutTicks := pdMS_TO_TICKS

/-- `totalTicks` of `wait_for`: a product of 64 bits, and a tick at least. -/
def totalTicks (ticksPerSec : ℕ) (timeout : ℤ) : BitVec 64 :=
  let ticks := BitVec.ofInt 64 timeout * BitVec.ofNat 64 ticksPerSec / 1000
  if ticks = 0 ∧ 0 < timeout then 1 else ticks

/-- `tx_semaphore_put`; the ticks are capped at 32 bits. -/
def threadXConditionVariable {w : ℕ} (ticksPerSec : ℕ) : TokenPort w where
  give := fun n => n + 1
  give_pos := by
    intro n
    omega
  give_le := by
    intro n
    exact Nat.le_refl _
  timeoutTicks := fun timeout =>
    if 0xFFFFFFFF < totalTicks ticksPerSec timeout then BitVec.ofNat w 0xFFFFFFFF
    else (totalTicks ticksPerSec timeout).setWidth w

/-- The timeout of a `wait_for` and its locals. -/
structure WaitFor (w : ℕ) where
  timeout : ℤ
  timeoutTicks : BitVec w
  start : BitVec w
  /-- history: the clock when `start` was read -/
  since : ℕ
deriving DecidableEq, Repr

/-- Where a thread is in `Wait`; the locals are those of `wait_for`, `none` in
`wait`. -/
inductive WaiterPc (w : ℕ) where
  | idle
  /-- about to lock `m_lock` -/
  | entering (timeout : Option ℤ)
  | entered (timeout : Option ℤ)
  /-- at `while (!pred())`, with the lock -/
  | testing (t : Option (WaitFor w))
  /-- the lock is released, the kernel semaphore not taken yet -/
  | unlocked (t : Option (WaitFor w)) (remaining : Option (BitVec w))
  /-- blocked in the kernel, until a deadline if there is one -/
  | taking (t : Option (WaitFor w)) (deadline : Option ℕ)
  /-- about to lock again; `res` is the result of the take -/
  | relocking (t : Option (WaitFor w)) (res : Bool)
  /-- the take timed out: at `return pred()`, with the lock -/
  | expired (t : Option (WaitFor w))
deriving DecidableEq, Repr

/-- Where a thread is in `Signal`. -/
inductive SignalPc where
  | idle
  | locking
  | locked
  /-- `m_signaled` is set and the lock released -/
  | notifying
deriving DecidableEq, Repr

structure SemaphoreSys (w : ℕ) (W G : Type) where
  clock : ℕ
  m_signaled : Bool
  /-- holder of `m_lock` -/
  m_lock : Option (W ⊕ G)
  /-- count of the kernel semaphore in `m_sema` -/
  tokens : ℕ
  waiter : W → WaiterPc w
  signaler : G → SignalPc
  /-- history: what took effect, oldest first -/
  log : List FlagEvent
  /-- history: for each `Wait` that gave up its locals and when it did -/
  gaveUp : List (Option (WaitFor w) × ℕ)

/-- The steps of the threads; a step of a waiter carries its locals. -/
inductive SemaphoreLabel (w : ℕ) (W G : Type) where
  | tick
  | wait (i : W) (timeout : Option ℤ)
  | lock (i : W) (timeout : Option ℤ)
  | start (i : W) (timeout : Option ℤ)
  | test (i : W) (t : Option (WaitFor w))
  | block (i : W) (t : Option (WaitFor w)) (remaining : Option (BitVec w))
  | take (i : W) (t : Option (WaitFor w)) (d : Option ℕ)
  | expire (i : W) (t : Option (WaitFor w)) (d : ℕ)
  | relock (i : W) (t : Option (WaitFor w)) (res : Bool)
  | last (i : W) (t : Option (WaitFor w))
  | signal (j : G)
  | lockSignal (j : G)
  | set (j : G)
  | notify (j : G)

namespace WaiterPc

variable {w : ℕ}

/-- The thread has the lock. -/
def holds : WaiterPc w → Bool
  | .entered _ | .testing _ | .expired _ => true
  | _ => false

/-- The thread will read `m_signaled` before it blocks. -/
def awake : WaiterPc w → Bool
  | .entering _ | .entered _ | .testing _ | .relocking _ _ | .expired _ => true
  | _ => false

end WaiterPc

namespace SemaphoreSys

variable {w : ℕ} {W G : Type} [DecidableEq W] [DecidableEq G]

/-- `TickType_t elapsed = now - start`. -/
def elapsed (t : WaitFor w) (clock : ℕ) : BitVec w := BitVec.ofNat w clock - t.start

/-- `portMAX_DELAY` and `TX_WAIT_FOREVER` are the largest value of the type. -/
def deadline (remaining : Option (BitVec w)) (clock : ℕ) : Option ℕ :=
  match remaining with
  | none => none
  | some r => if r = BitVec.allOnes w then none else some (clock + r.toNat)

/-- `m_signaled = false; return true`. -/
def acquire (i : W) (s : SemaphoreSys w W G) : SemaphoreSys w W G :=
  { s with
    m_signaled := false, m_lock := none, waiter := Function.update s.waiter i .idle,
    log := s.log ++ [.acquire] }

/-- `return false`. -/
def giveUp (i : W) (t : Option (WaitFor w)) (s : SemaphoreSys w W G) : SemaphoreSys w W G :=
  { s with
    m_lock := none, waiter := Function.update s.waiter i .idle, log := s.log ++ [.giveUp],
    gaveUp := s.gaveUp ++ [(t, s.clock)] }

/-- The end of `Wait`, with the lock. -/
def finish (i : W) (t : Option (WaitFor w)) (s : SemaphoreSys w W G) : SemaphoreSys w W G :=
  if s.m_signaled then acquire i s else giveUp i t s

/-- One turn of the loop of `wait` or `wait_for`, with the lock. -/
def turn (i : W) (t : Option (WaitFor w)) (s : SemaphoreSys w W G) : SemaphoreSys w W G :=
  if s.m_signaled then finish i t s
  else
    match t with
    | none =>
      { s with m_lock := none, waiter := Function.update s.waiter i (.unlocked none none) }
    | some u =>
      if u.timeoutTicks ≤ elapsed u s.clock then finish i t s
      else
        { s with
          m_lock := none,
          waiter := Function.update s.waiter i
            (.unlocked t (some (u.timeoutTicks - elapsed u s.clock))) }

def guard : SemaphoreLabel w W G → SemaphoreSys w W G → Prop
  | .tick, _ => True
  | .wait i _, s => s.waiter i = .idle
  | .lock i timeout, s => s.m_lock = none ∧ s.waiter i = .entering timeout
  | .start i timeout, s => s.waiter i = .entered timeout
  | .test i t, s => s.waiter i = .testing t
  | .block i t remaining, s => s.waiter i = .unlocked t remaining
  | .take i t d, s => 0 < s.tokens ∧ s.waiter i = .taking t d
  | .expire i t d, s => s.tokens = 0 ∧ s.waiter i = .taking t (some d) ∧ d ≤ s.clock
  | .relock i t res, s => s.m_lock = none ∧ s.waiter i = .relocking t res
  | .last i t, s => s.waiter i = .expired t
  | .signal j, s => s.signaler j = .idle
  | .lockSignal j, s => s.m_lock = none ∧ s.signaler j = .locking
  | .set j, s => s.signaler j = .locked
  | .notify j, s => s.signaler j = .notifying

instance : ∀ (l : SemaphoreLabel w W G) (s : SemaphoreSys w W G), Decidable (guard l s)
  | .tick, _ => inferInstanceAs (Decidable True)
  | .wait _ _, _ | .start _ _, _ | .test _ _, _ | .block _ _ _, _ | .last _ _, _ =>
    inferInstanceAs (Decidable (_ = _))
  | .lock _ _, _ | .relock _ _ _, _ => inferInstanceAs (Decidable (_ = _ ∧ _ = _))
  | .take _ _ _, _ => inferInstanceAs (Decidable (_ < _ ∧ _ = _))
  | .expire _ _ _, _ => inferInstanceAs (Decidable (_ = _ ∧ _ = _ ∧ _ ≤ _))
  | .lockSignal _, _ => inferInstanceAs (Decidable (_ = _ ∧ _ = _))
  | .signal _, _ | .set _, _ | .notify _, _ => inferInstanceAs (Decidable (_ = _))

def update (P : TokenPort w) : SemaphoreLabel w W G → SemaphoreSys w W G → SemaphoreSys w W G
  | .tick, s => { s with clock := s.clock + 1 }
  | .wait i timeout, s => { s with waiter := Function.update s.waiter i (.entering timeout) }
  | .lock i timeout, s =>
    { s with
      m_lock := some (.inl i), waiter := Function.update s.waiter i (.entered timeout) }
  | .start i timeout, s =>
    { s with
      waiter := Function.update s.waiter i
        (.testing (timeout.map fun t =>
          ⟨t, P.timeoutTicks t, BitVec.ofNat w s.clock, s.clock⟩)) }
  | .test i t, s => turn i t s
  | .block i t remaining, s =>
    { s with waiter := Function.update s.waiter i (.taking t (deadline remaining s.clock)) }
  | .take i t _, s =>
    { s with
      tokens := s.tokens - 1, waiter := Function.update s.waiter i (.relocking t true) }
  | .expire i t _, s => { s with waiter := Function.update s.waiter i (.relocking t false) }
  | .relock i t res, s =>
    { s with
      m_lock := some (.inl i),
      waiter := Function.update s.waiter i (if res then .testing t else .expired t) }
  | .last i t, s => finish i t s
  | .signal j, s => { s with signaler := Function.update s.signaler j .locking }
  | .lockSignal j, s =>
    { s with m_lock := some (.inr j), signaler := Function.update s.signaler j .locked }
  | .set j, s =>
    { s with
      m_signaled := true, m_lock := none, signaler := Function.update s.signaler j .notifying,
      log := s.log ++ [.signal] }
  | .notify j, s =>
    { s with tokens := P.give s.tokens, signaler := Function.update s.signaler j .idle }

def initial : SemaphoreSys w W G where
  clock := 0
  m_signaled := false
  m_lock := none
  tokens := 0
  waiter := fun _ => .idle
  signaler := fun _ => .idle
  log := []
  gaveUp := []

end SemaphoreSys

open SemaphoreSys in
def semaphoreLts {w : ℕ} (P : TokenPort w) (W G : Type) [DecidableEq W] [DecidableEq G] :
    Lts (SemaphoreSys w W G) (SemaphoreLabel w W G) where
  init := fun s => ∃ clock, s = { initial with clock }
  guard := guard
  update := update P

instance {w : ℕ} (P : TokenPort w) (W G : Type) [DecidableEq W] [DecidableEq G] :
    ∀ l s, Decidable ((semaphoreLts P W G).guard l s) :=
  fun l s => inferInstanceAs (Decidable (SemaphoreSys.guard l s))

namespace SemaphoreSys

variable {w : ℕ} {W G : Type} [DecidableEq W] [DecidableEq G] {P : TokenPort w}
  {s : SemaphoreSys w W G}

/-! ## The lock -/

/-- The thread has the lock. -/
def inside (s : SemaphoreSys w W G) : W ⊕ G → Bool
  | .inl i => (s.waiter i).holds
  | .inr j => s.signaler j = .locked

theorem inside_waiter (i : W) (pc : WaiterPc w) :
    inside { s with waiter := Function.update s.waiter i pc } =
      Function.update s.inside (.inl i) pc.holds := by
  funext a
  cases a with
  | inl k =>
    by_cases hk : k = i
    · subst hk
      simp [inside]
    · simp [inside, hk]
  | inr j => simp [inside]

theorem inside_signaler (j : G) (pc : SignalPc) :
    inside { s with signaler := Function.update s.signaler j pc } =
      Function.update s.inside (.inr j) (pc = .locked) := by
  funext a
  cases a with
  | inl i => simp [inside]
  | inr k =>
    by_cases hk : k = j
    · subst hk
      simp [inside]
    · simp [inside, hk]

def LockInv (s : SemaphoreSys w W G) : Prop := Owned s.inside s.m_lock

theorem LockInv.stayWaiter (h : LockInv s) {i : W} {pc : WaiterPc w}
    (hpc : pc.holds = (s.waiter i).holds) :
    LockInv { s with waiter := Function.update s.waiter i pc } := by
  have hsame : pc.holds = s.inside (.inl i) := hpc
  have hstay := Owned.stay h hsame
  rw [← inside_waiter] at hstay
  exact hstay

theorem LockInv.acquireWaiter (h : LockInv s) (hfree : s.m_lock = none) {i : W} {pc : WaiterPc w}
    (hpc : pc.holds = true) :
    LockInv { s with m_lock := some (.inl i), waiter := Function.update s.waiter i pc } := by
  unfold LockInv at h
  rw [hfree] at h
  have hin := h.acquire (a := .inl i)
  rw [← hpc, ← inside_waiter] at hin
  exact hin

theorem LockInv.releaseWaiter (h : LockInv s) {i : W} (hi : (s.waiter i).holds = true)
    (pc : WaiterPc w) (hpc : pc.holds = false) :
    LockInv { s with m_lock := none, waiter := Function.update s.waiter i pc } := by
  have hheld : s.inside (.inl i) = true := hi
  have hout := Owned.release h hheld
  rw [← hpc, ← inside_waiter] at hout
  exact hout

theorem lockInv_signaler {j : G} (pc : SignalPc) {lock : Option (W ⊕ G)}
    (hown : Owned (Function.update s.inside (.inr j) (pc = .locked)) lock) :
    LockInv { s with m_lock := lock, signaler := Function.update s.signaler j pc } := by
  rw [← inside_signaler] at hown
  exact hown

/-- The end of `Wait` releases the lock. -/
theorem LockInv.finish (h : LockInv s) {i : W} (hi : (s.waiter i).holds = true)
    (t : Option (WaitFor w)) : LockInv (finish i t s) := by
  unfold SemaphoreSys.finish
  split
  · exact h.releaseWaiter hi .idle rfl
  · exact h.releaseWaiter hi .idle rfl

/-- A turn of the loop leaves with the lock released, however it ends. -/
theorem LockInv.turn (h : LockInv s) {i : W} (hi : (s.waiter i).holds = true)
    (t : Option (WaitFor w)) : LockInv (turn i t s) := by
  unfold SemaphoreSys.turn
  split
  · exact h.finish hi t
  · cases t with
    | none => exact h.releaseWaiter hi (.unlocked none none) rfl
    | some u =>
      dsimp only
      split
      · exact h.finish hi (some u)
      · exact h.releaseWaiter hi _ rfl

theorem LockInv.step {l : SemaphoreLabel w W G} (hg : guard l s) (h : LockInv s) :
    LockInv (update P l s) := by
  cases l with
  | tick => exact h
  | wait i timeout =>
    have hpc : s.waiter i = .idle := hg
    refine h.stayWaiter ?_
    rw [hpc]
    rfl
  | lock i timeout => exact h.acquireWaiter hg.1 rfl
  | start i timeout =>
    have hpc : s.waiter i = .entered timeout := hg
    refine h.stayWaiter ?_
    rw [hpc]
    rfl
  | test i t =>
    have hpc : s.waiter i = .testing t := hg
    refine h.turn ?_ t
    rw [hpc]
    rfl
  | block i t r =>
    have hpc : s.waiter i = .unlocked t r := hg
    refine h.stayWaiter ?_
    rw [hpc]
    rfl
  | take i t d =>
    refine LockInv.stayWaiter (s := { s with tokens := s.tokens - 1 }) h ?_
    change _ = (s.waiter i).holds
    rw [hg.2]
    rfl
  | expire i t d =>
    refine h.stayWaiter ?_
    rw [hg.2.1]
    rfl
  | relock i t res =>
    refine h.acquireWaiter hg.1 ?_
    cases res with
    | true => rfl
    | false => rfl
  | last i t =>
    have hpc : s.waiter i = .expired t := hg
    refine h.finish ?_ t
    rw [hpc]
    rfl
  | signal j =>
    have hidle : s.signaler j = .idle := hg
    exact lockInv_signaler .locking (Owned.stay h (by simp [inside, hidle]))
  | lockSignal j =>
    rcases hg with ⟨hfree, hpc⟩
    refine lockInv_signaler .locked ?_
    unfold LockInv at h
    rw [hfree] at h
    simpa using h.acquire (a := .inr j)
  | set j =>
    have hpc : s.signaler j = .locked := hg
    have hheld : s.inside (.inr j) = true := by simp [inside, hpc]
    refine lockInv_signaler (s := { s with m_signaled := true }) .notifying ?_
    exact Owned.release h hheld
  | notify j =>
    have hpc : s.signaler j = .notifying := hg
    exact lockInv_signaler .idle (Owned.stay h (by simp [inside, hpc]))

/-! ## Timeouts -/

variable (P) in
/-- The locals of `wait_for` were read from the counter at `since`. -/
def ReadAt (clock : ℕ) (t : WaitFor w) : Prop :=
  t.start = BitVec.ofNat w t.since ∧ t.timeoutTicks = P.timeoutTicks t.timeout ∧ t.since ≤ clock

variable (P) in
/-- What `wait_for` asks for has passed at `clock`. -/
def Over (clock : ℕ) (t : WaitFor w) : Prop :=
  t.since + (P.timeoutTicks t.timeout).toNat ≤ clock

variable (P) in
/-- What a waiter may rely on about its timeout. -/
def InTime (clock : ℕ) : WaiterPc w → Prop
  | .testing (some t) => ReadAt P clock t
  | .unlocked none r => r = none
  | .unlocked (some t) r => ReadAt P clock t ∧ ∃ k, r = some k ∧ Over P (clock + k.toNat) t
  | .taking none d => d = none
  | .taking (some t) d => ReadAt P clock t ∧ ∀ k, d = some k → Over P k t
  | .relocking none res => res = true
  | .relocking (some t) res => ReadAt P clock t ∧ (res = false → Over P clock t)
  | .expired none => False
  | .expired (some t) => Over P clock t
  | _ => True

theorem ReadAt.later {clock clock' : ℕ} {t : WaitFor w} (h : ReadAt P clock t)
    (hle : clock ≤ clock') : ReadAt P clock' t :=
  ⟨h.1, h.2.1, Nat.le_trans h.2.2 hle⟩

theorem Over.later {clock clock' : ℕ} {t : WaitFor w} (h : Over P clock t)
    (hle : clock ≤ clock') : Over P clock' t := Nat.le_trans h hle

theorem InTime.tick {clock : ℕ} {pc : WaiterPc w} (h : InTime P clock pc) :
    InTime P (clock + 1) pc := by
  have hle := Nat.le_succ clock
  match pc, h with
  | .testing (some t), h => exact h.later hle
  | .unlocked none r, h => exact h
  | .unlocked (some t) r, ⟨hread, k, hk, hover⟩ =>
    exact ⟨hread.later hle, k, hk, hover.later (Nat.add_le_add_right hle _)⟩
  | .taking none d, h => exact h
  | .taking (some t) d, ⟨hread, hd⟩ => exact ⟨hread.later hle, hd⟩
  | .relocking none res, h => exact h
  | .relocking (some t) res, ⟨hread, hres⟩ =>
    exact ⟨hread.later hle, fun hf => (hres hf).later hle⟩
  | .expired (some t), h => exact Over.later h hle
  | .idle, _ | .entering _, _ | .entered _, _ | .testing none, _ => trivial

/-- The take of what remains does not time out early. -/
theorem inTime_deadline {clock : ℕ} {t : Option (WaitFor w)} {r : Option (BitVec w)}
    (h : InTime P clock (.unlocked t r)) : InTime P clock (.taking t (deadline r clock)) := by
  cases t with
  | none =>
    have hr : r = none := h
    rw [hr]
    rfl
  | some u =>
    rcases h with ⟨hread, k, rfl, hover⟩
    refine ⟨hread, fun d hd => ?_⟩
    simp only [deadline] at hd
    split at hd
    · cases hd
    · cases hd
      exact hover

theorem inTime_relock {clock : ℕ} {t : Option (WaitFor w)} {res : Bool}
    (h : InTime P clock (.relocking t res)) :
    InTime P clock (if res then .testing t else .expired t) := by
  cases t with
  | none =>
    have hres : res = true := h
    rw [hres]
    trivial
  | some u =>
    cases res with
    | true => exact h.1
    | false => exact h.2 rfl

/-- The counter shows at most what has passed: the difference modulo its range. -/
theorem elapsed_le {clock : ℕ} {t : WaitFor w} (h : ReadAt P clock t) :
    (elapsed t clock).toNat ≤ clock - t.since := by
  unfold elapsed
  rw [h.1, toNat_ofNat_sub h.2.2]
  exact Nat.mod_le _ _


omit [DecidableEq G] in
/-- One turn of the loop takes the flag, gives up in time, or goes on to wait
for what is left. -/
theorem turn_cases {i : W} {t : Option (WaitFor w)} (ht : InTime P s.clock (.testing t)) :
    (s.m_signaled = true ∧ turn i t s = acquire i s) ∨
    (s.m_signaled = false ∧ turn i t s = giveUp i t s ∧ ∃ u, t = some u ∧ Over P s.clock u) ∨
    (s.m_signaled = false ∧ ∃ r, InTime P s.clock (.unlocked t r) ∧
      turn i t s =
        { s with m_lock := none, waiter := Function.update s.waiter i (.unlocked t r) }) := by
  unfold turn finish
  by_cases hup : s.m_signaled = true
  · left
    simp [hup]
  · right
    simp only [Bool.not_eq_true] at hup
    cases t with
    | none =>
      right
      refine ⟨hup, none, rfl, ?_⟩
      simp [hup]
    | some u =>
      have hread : ReadAt P s.clock u := ht
      have hpassed := elapsed_le hread
      by_cases hover : u.timeoutTicks ≤ elapsed u s.clock
      · left
        refine ⟨hup, by simp [hup, hover], u, rfl, ?_⟩
        have hle : u.timeoutTicks.toNat ≤ (elapsed u s.clock).toNat := hover
        have hticks := congrArg BitVec.toNat hread.2.1
        have hsince := hread.2.2
        unfold Over
        omega
      · right
        refine ⟨hup, some (u.timeoutTicks - elapsed u s.clock), ⟨hread, _, rfl, ?_⟩, ?_⟩
        · -- what remains is the timeout less what the counter shows
          have hlt : ¬ u.timeoutTicks.toNat ≤ (elapsed u s.clock).toNat := hover
          have hsub : (u.timeoutTicks - elapsed u s.clock).toNat =
              u.timeoutTicks.toNat - (elapsed u s.clock).toNat := by
            rw [BitVec.toNat_sub_of_le]
            exact BitVec.le_of_lt (BitVec.not_le.mp hover)
          have hticks := congrArg BitVec.toNat hread.2.1
          have hsince := hread.2.2
          unfold Over
          omega
        · simp [hup, hover]

/-! ## The invariant -/

/-- Someone is on the way to the flag, or will be told of it. -/
def Pending (s : SemaphoreSys w W G) : Prop :=
  0 < s.tokens ∨ (∃ j, s.signaler j = .notifying) ∨ ∃ i, (s.waiter i).awake = true

variable (P) in
structure SemaphoreInv (s : SemaphoreSys w W G) : Prop where
  lock : LockInv s
  time : ∀ i, InTime P s.clock (s.waiter i)
  gaveUp : ∀ e ∈ s.gaveUp, ∃ t, e.1 = some t ∧ Over P e.2 t
  replay : flagLts.Run false s.log s.m_signaled
  pending : s.m_signaled = true → Pending s

omit [DecidableEq W] [DecidableEq G] in
theorem SemaphoreInv.initial (clock : ℕ) :
    SemaphoreInv P { (initial : SemaphoreSys w W G) with clock } where
  lock := by
    intro a
    cases a with
    | inl i => simp [inside, SemaphoreSys.initial, WaiterPc.holds]
    | inr j => simp [inside, SemaphoreSys.initial]
  time := by
    intro i
    trivial
  gaveUp := by
    intro e he
    cases he
  replay := .nil
  pending := by
    intro hup
    cases hup

omit [DecidableEq G] in
theorem inTime_update (h : ∀ k, InTime P s.clock (s.waiter k)) {i : W} (pc : WaiterPc w)
    (hpc : InTime P s.clock pc) (k : W) : InTime P s.clock (Function.update s.waiter i pc k) := by
  by_cases hk : k = i
  · rw [hk, Function.update_self]
    exact hpc
  · rw [Function.update_of_ne hk]
    exact h k

namespace SemaphoreInv

omit [DecidableEq G] in
/-- A waiter moves and leaves the flag alone. It may go to sleep only if the
tokens stay. -/
theorem move (h : SemaphoreInv P s) {i : W} {pc : WaiterPc w} {lock : Option (W ⊕ G)} {tokens : ℕ}
    (hlock : LockInv
      { s with m_lock := lock, tokens := tokens, waiter := Function.update s.waiter i pc })
    (hpc : InTime P s.clock pc)
    (hawake : s.m_signaled = true →
      pc.awake = true ∨ (s.waiter i).awake = false ∧ s.tokens ≤ tokens) :
    SemaphoreInv P
      { s with m_lock := lock, tokens := tokens, waiter := Function.update s.waiter i pc } where
  lock := hlock
  time := inTime_update h.time _ hpc
  gaveUp := h.gaveUp
  replay := h.replay
  pending := by
    intro hup
    rcases hawake hup with hpc' | ⟨hasleep, htokens⟩
    · right; right
      exact ⟨i, by simpa using hpc'⟩
    · rcases h.pending hup with htok | ⟨j, hj⟩ | ⟨k, hk⟩
      · exact Or.inl (Nat.lt_of_lt_of_le htok htokens)
      · exact Or.inr (Or.inl ⟨j, hj⟩)
      · -- the one that is awake is not the one that moved
        right; right
        have hne : k ≠ i := by
          intro heq
          rw [heq, hasleep] at hk
          cases hk
        exact ⟨k, by simpa [Function.update_of_ne hne] using hk⟩

omit [DecidableEq G] in
theorem acquire (h : SemaphoreInv P s) (hup : s.m_signaled = true) {i : W}
    (hlock : LockInv (acquire i s)) : SemaphoreInv P (acquire i s) where
  lock := hlock
  time := inTime_update h.time .idle trivial
  gaveUp := h.gaveUp
  replay := h.replay.concat (l := FlagEvent.acquire) hup
  pending := by
    intro hdown
    cases hdown

omit [DecidableEq G] in
theorem giveUp (h : SemaphoreInv P s) (hdown : s.m_signaled = false) {i : W}
    {t : Option (WaitFor w)} (hlock : LockInv (giveUp i t s))
    (ht : ∃ u, t = some u ∧ Over P s.clock u) : SemaphoreInv P (giveUp i t s) where
  lock := hlock
  time := inTime_update h.time .idle trivial
  gaveUp := by
    intro e he
    rcases List.mem_append.mp he with hold | hnew
    · exact h.gaveUp e hold
    · rw [List.mem_singleton.mp hnew]
      exact ht
  replay := h.replay.concat (l := FlagEvent.giveUp) hdown
  pending := by
    intro hup
    change s.m_signaled = true at hup
    rw [hdown] at hup
    cases hup

omit [DecidableEq W] in
/-- A thread in `Signal` moves, and leaves the flag alone. -/
theorem moveSignaler (h : SemaphoreInv P s) {j : G} {pc : SignalPc} {lock : Option (W ⊕ G)}
    (hlock : LockInv { s with m_lock := lock, signaler := Function.update s.signaler j pc })
    (hpc : s.signaler j ≠ .notifying) :
    SemaphoreInv P { s with m_lock := lock, signaler := Function.update s.signaler j pc } where
  lock := hlock
  time := h.time
  gaveUp := h.gaveUp
  replay := h.replay
  pending := by
    intro hup
    rcases h.pending hup with htok | ⟨k, hk⟩ | hwake
    · exact Or.inl htok
    · right; left
      have hne : k ≠ j := by
        intro heq
        exact hpc (heq ▸ hk)
      exact ⟨k, by simpa [Function.update_of_ne hne] using hk⟩
    · exact Or.inr (Or.inr hwake)

theorem step {l : SemaphoreLabel w W G} (hg : guard l s) (h : SemaphoreInv P s) :
    SemaphoreInv P (update P l s) := by
  have hlock := h.lock.step (P := P) hg
  cases l with
  | tick =>
    exact ⟨hlock, fun i => (h.time i).tick, h.gaveUp, h.replay, h.pending⟩
  | wait i timeout => exact h.move hlock trivial fun _ => Or.inl rfl
  | lock i timeout => exact h.move hlock trivial fun _ => Or.inl rfl
  | start i timeout =>
    refine h.move hlock ?_ fun _ => Or.inl rfl
    cases timeout with
    | none => trivial
    | some t => exact ⟨rfl, rfl, Nat.le_refl _⟩
  | test i t =>
    have hpc : s.waiter i = .testing t := hg
    have ht := h.time i
    rw [hpc] at ht
    simp only [update] at hlock ⊢
    rcases turn_cases ht with ⟨hup, heq⟩ | ⟨hdown, heq, hover⟩ | ⟨hdown, r, hr, heq⟩
    · rw [heq] at hlock ⊢
      exact h.acquire hup hlock
    · rw [heq] at hlock ⊢
      exact h.giveUp hdown hlock hover
    · rw [heq] at hlock ⊢
      refine h.move hlock hr fun hup => ?_
      rw [hdown] at hup
      cases hup
  | block i t r =>
    have hpc : s.waiter i = .unlocked t r := hg
    have ht := h.time i
    rw [hpc] at ht
    refine h.move hlock (inTime_deadline ht) fun _ => Or.inr ⟨?_, Nat.le_refl _⟩
    rw [hpc]
    rfl
  | take i t d =>
    have ht := h.time i
    rw [hg.2] at ht
    refine h.move hlock ?_ fun _ => Or.inl rfl
    cases t with
    | none => rfl
    | some u => exact ⟨ht.1, fun hf => Bool.noConfusion hf⟩
  | expire i t d =>
    rcases hg with ⟨-, hpc, hd⟩
    have ht := h.time i
    rw [hpc] at ht
    refine h.move hlock ?_ fun _ => Or.inl rfl
    cases t with
    | none =>
      have hnone : some d = none := ht
      cases hnone
    | some u => exact ⟨ht.1, fun _ => (ht.2 d rfl).later hd⟩
  | relock i t res =>
    have ht := h.time i
    rw [hg.2] at ht
    refine h.move hlock (inTime_relock ht) fun _ => Or.inl ?_
    cases res with
    | true => rfl
    | false => rfl
  | last i t =>
    have hpc : s.waiter i = .expired t := hg
    have ht := h.time i
    rw [hpc] at ht
    simp only [update, finish] at hlock ⊢
    by_cases hup : s.m_signaled = true
    · simp only [hup, if_true] at hlock ⊢
      exact h.acquire hup hlock
    · simp only [hup] at hlock ⊢
      cases t with
      | none => exact absurd ht id
      | some u => exact h.giveUp (by simpa using hup) hlock ⟨u, rfl, ht⟩
  | signal j =>
    have hidle : s.signaler j = .idle := hg
    refine h.moveSignaler hlock ?_
    rw [hidle]
    exact SignalPc.noConfusion
  | lockSignal j =>
    refine h.moveSignaler hlock ?_
    rw [hg.2]
    exact SignalPc.noConfusion
  | set j =>
    refine ⟨hlock, h.time, h.gaveUp, h.replay.concat (l := FlagEvent.signal) trivial, fun _ => ?_⟩
    right; left
    exact ⟨j, Function.update_self _ _ _⟩
  | notify j =>
    exact ⟨hlock, h.time, h.gaveUp, h.replay, fun _ => Or.inl (P.give_pos s.tokens)⟩

end SemaphoreInv

theorem inv_of_reachable (hr : (semaphoreLts P W G).Reachable s) : SemaphoreInv P s := by
  refine hr.induct (P := SemaphoreInv P) ?_ ?_
  · rintro s₀ ⟨clock, rfl⟩
    exact SemaphoreInv.initial clock
  · intro l s₀ _ hg _ h
    exact h.step hg

end SemaphoreSys

open SemaphoreSys

variable {w : ℕ} {P : TokenPort w} {W G : Type} [DecidableEq W] [DecidableEq G]
  {s : SemaphoreSys w W G}

/-- The semaphore is a flag, whatever the port and however the threads
interleave: each successful wait has a signal of its own, and a wait that gives
up has seen the flag down and its timeout over. -/
theorem semaphore_refines (hr : (semaphoreLts P W G).Reachable s) :
    flagLts.Run false s.log s.m_signaled ∧
      s.log.count .acquire + s.m_signaled.toNat ≤ s.log.count .signal ∧
      ∀ e ∈ s.gaveUp, ∃ t, e.1 = some t ∧
        t.since + (P.timeoutTicks t.timeout).toNat ≤ e.2 := by
  have h := inv_of_reachable hr
  exact ⟨h.replay, flag_count h.replay, h.gaveUp⟩

/-- The counter of 32 bits overflows while a wait for 35 ms, three ticks, goes by; a
later wait is signaled. -/
theorem semaphore_refines_run :
    ∃ s : SemaphoreSys 32 Bool Unit, s.log = [.giveUp, .signal, .acquire] ∧
      (flagLts.Run false s.log s.m_signaled ∧
        s.log.count .acquire + s.m_signaled.toNat ≤ s.log.count .signal ∧
        ∀ e ∈ s.gaveUp, ∃ t, e.1 = some t ∧
          t.since + ((threadXConditionVariable 100 : TokenPort 32).timeoutTicks t.timeout).toNat ≤
            e.2) := by
  have hrun := Lts.execWhen_reachable
    (semaphoreLts (threadXConditionVariable 100 : TokenPort 32) Bool Unit) Lts.always
    (show (semaphoreLts _ Bool Unit).init { initial with clock := 4294967294 } from ⟨_, rfl⟩)
    [.wait false (some 35), .lock false (some 35), .start false (some 35),
      .test false (some ⟨35, 3, 4294967294, 4294967294⟩),
      .block false (some ⟨35, 3, 4294967294, 4294967294⟩) (some 3), .tick, .tick, .tick,
      .expire false (some ⟨35, 3, 4294967294, 4294967294⟩) 4294967297,
      .relock false (some ⟨35, 3, 4294967294, 4294967294⟩) false,
      .last false (some ⟨35, 3, 4294967294, 4294967294⟩), .signal (), .lockSignal (), .set (),
      .wait true none, .lock true none, .start true none, .test true none]
    (fun s => s.log = [.giveUp, .signal, .acquire]) (by decide +kernel)
  rcases hrun with ⟨s, hr, hlog⟩
  exact ⟨s, by simpa using hlog, semaphore_refines hr⟩

/-! ## ThreadX -/

/-- The ticks are the timeout rounded down, but one at least. -/
theorem toNat_totalTicks {ticksPerSec timeout : ℕ} (hpos : 0 < timeout)
    (hlt : timeout * ticksPerSec < 18446744073709551616) :
    (totalTicks ticksPerSec timeout).toNat = max 1 (timeout * ticksPerSec / 1000) := by
  have hticks : (BitVec.ofInt 64 timeout * BitVec.ofNat 64 ticksPerSec / 1000).toNat =
      timeout * ticksPerSec / 1000 := by
    rw [BitVec.ofInt_natCast, ← BitVec.ofNat_mul, BitVec.toNat_udiv, BitVec.toNat_ofNat,
      Nat.mod_eq_of_lt hlt]
    rfl
  unfold totalTicks
  by_cases hzero : BitVec.ofInt 64 timeout * BitVec.ofNat 64 ticksPerSec / 1000 = 0
  · rw [hzero] at hticks
    have hnone : timeout * ticksPerSec / 1000 = 0 := hticks.symm
    rw [if_pos ⟨hzero, by omega⟩, hnone]
    rfl
  · have hsome : timeout * ticksPerSec / 1000 ≠ 0 := by
      intro hnone
      rw [hnone] at hticks
      exact hzero (BitVec.eq_of_toNat_eq hticks)
    rw [if_neg fun h => hzero h.1, hticks]
    omega

/-- A wait that gives up on ThreadX has waited for its timeout rounded down to ticks,
but for one tick at least, or for the cap. -/
theorem threadX_gaveUp {ticksPerSec : ℕ} {s : SemaphoreSys 32 W G}
    (hr : (semaphoreLts (threadXConditionVariable ticksPerSec) W G).Reachable s)
    {t : WaitFor 32} {gaveUp timeout : ℕ} (he : (some t, gaveUp) ∈ s.gaveUp)
    (htimeout : t.timeout = timeout) (hpos : 0 < timeout)
    (hlt : timeout * ticksPerSec < 18446744073709551616) :
    t.since + min (max 1 (timeout * ticksPerSec / 1000)) 4294967295 ≤ gaveUp := by
  rcases (inv_of_reachable hr).gaveUp _ he with ⟨u, hu, hover⟩
  cases hu
  have htotal := toNat_totalTicks hpos hlt
  unfold Over at hover
  rw [htimeout] at hover
  simp only [threadXConditionVariable] at hover
  split at hover
  · exact Nat.le_trans (Nat.add_le_add_left (Nat.min_le_right _ _) _) hover
  · next hcap =>
    have hle : (totalTicks ticksPerSec timeout).toNat ≤ 4294967295 := BitVec.not_lt.mp hcap
    rw [BitVec.toNat_setWidth, Nat.mod_eq_of_lt (by omega), htotal] at hover
    exact Nat.le_trans (Nat.add_le_add_left (Nat.min_le_left _ _) _) hover

end AsyncSqlite
