import Mathlib.Data.Int.Notation
import AsyncSqlite.Heap.IntrusiveList
import AsyncSqlite.Lts.Run

/-!
# AsyncSqlite.Timer.Model — `Timer` and `ProcessTimers`

The software timers of `extras/util/Timer.cpp`: one intrusive list of `Timer`
objects behind one lock. `Stop` only disables a timer and raises a flag; the
next `ProcessTimers` takes the disabled timers out of the list.

Reading guide:

* What runs under the lock is one step. `ProcessTimers` is its locked part
  (`processTimers`) and then one step for every subscriber that it calls
  (`advance`), without the lock. Any number of passes are in progress, and
  anything may come between their steps: this is what expiry callbacks and
  other threads do.
* The loops run over the links with fuel; `diverged` records that fuel ran out.
* `GetNow` is an input. `CheckExpired` reads the clock up to three times.
* Times are 64-bit counts. A sum that overflows, which C++ leaves undefined, wraps
  around as the machine's does.
* `OnExpired` is its list of live subscriptions, which is what `LiveSignal`
  says of a signal; a snapshot shares ownership of the delegates in it.
-/

namespace AsyncSqlite

namespace TimePoint

/-- `TimePoint + Duration`. -/
def add (t d : ℤ) : ℤ := (t + d).bmod 18446744073709551616

/-- The sum is a 64-bit count. -/
def InRange (t d : ℤ) : Prop := -9223372036854775808 ≤ t + d ∧ t + d < 9223372036854775808

instance (t d : ℤ) : Decidable (InRange t d) :=
  inferInstanceAs (Decidable (-9223372036854775808 ≤ t + d ∧ t + d < 9223372036854775808))

theorem add_eq {t d : ℤ} (h : InRange t d) : add t d = t + d :=
  Int.bmod_eq_of_le h.1 h.2

end TimePoint

structure Timer where
  timeout : ℤ
  expireTime : ℤ
  enabled : Bool
  once : Bool
deriving DecidableEq, Repr

/-- A timer as the constructor leaves it. -/
def Timer.constructed : Timer := ⟨0, 0, false, false⟩

/-- The readings of the clock in one `CheckExpired`, in its order. -/
structure Readings where
  expired : ℤ
  behind : ℤ
  restart : ℤ

/-- What a pass still has to call for one expired timer. -/
structure ExpiredSnapshot where
  timer : ℕ
  delegates : List ℕ
deriving DecidableEq, Repr

structure Timers where
  links : Links ℕ
  timer : ℕ → Timer
  /-- the subscriptions of `OnExpired` -/
  onExpired : ℕ → List ℕ
  /-- the timers that are constructed and not destroyed -/
  objects : List ℕ
  /-- `m_timerStopped` -/
  timerStopped : Bool
  /-- what the passes have collected and not called yet -/
  snapshots : ℕ → List ExpiredSnapshot
  passes : ℕ
  /-- `FaultHandler` was called, and the program has ended -/
  faulted : Bool
  /-- a loop over the list did not end -/
  diverged : Bool

namespace Timers

def initial : Timers where
  links := ⟨none, fun _ => none⟩
  timer := fun _ => .constructed
  onExpired := fun _ => []
  objects := []
  timerStopped := false
  snapshots := fun _ => []
  passes := 0
  faulted := false
  diverged := false

def setTimer (s : Timers) (t : ℕ) (x : Timer) : Timers :=
  { s with timer := Function.update s.timer t x }

/-- More rounds than a walk over distinct timers takes. -/
def fuel (s : Timers) : ℕ := s.objects.length + 1

/-- The result of a loop over the links, if it ended. -/
def withLinks (s : Timers) : Option (Links ℕ) → Timers
  | some links => { s with links := links }
  | none => { s with diverged := true }

/-- The constructor of the timer `t`. -/
def construct (t : ℕ) (s : Timers) : Timers :=
  { s.setTimer t .constructed with
    links := s.links.write (.next t) none
    onExpired := Function.update s.onExpired t []
    objects := t :: s.objects }

/-- `~Timer`. -/
def destroy (t : ℕ) (s : Timers) : Timers :=
  { s.withLinks (s.links.unlink t s.fuel .head) with
    onExpired := Function.update s.onExpired t []
    objects := s.objects.erase t }

/-- `Start`. A timeout that is not positive throws before the lock. -/
def start (t : ℕ) (timeout : ℤ) (once : Bool) (now : ℤ) (s : Timers) : Timers :=
  if timeout ≤ 0 then s
  else
    let s' := s.setTimer t ⟨timeout, TimePoint.add now timeout, true, once⟩
    match s'.links.find t s'.fuel s'.links.head with
    | some true => s'
    | some false => { s' with links := s'.links.pushFront t }
    | none => { s' with diverged := true }

/-- `Stop`. -/
def stop (t : ℕ) (s : Timers) : Timers :=
  { s.setTimer t { s.timer t with enabled := false } with timerStopped := true }

/-- `CheckExpired`. -/
def checkExpired (now : Readings) (t : ℕ) (s : Timers) : Bool × Timers :=
  let x := s.timer t
  if x.enabled = false then (false, s)
  else if now.expired < x.expireTime then (false, s)
  else if x.once then
    (true, { s.setTimer t { x with enabled := false } with timerStopped := true })
  else
    let next := TimePoint.add x.expireTime x.timeout
    if now.behind > next then (true, s.setTimer t { x with expireTime := now.restart })
    else (true, s.setTimer t { x with expireTime := next })

/-- The loop that takes disabled timers out of the list. -/
def removeStopped (s : Timers) : Timers :=
  if s.timerStopped then
    { s.withLinks (s.links.purge (fun t => (s.timer t).enabled) s.fuel .head) with
      timerStopped := false }
  else s

/-- The loop that collects the expired timers; `maxExpired` is
`MAX_TIMER_EXPIRED`. -/
def collect (maxExpired : ℕ) (now : ℕ → Readings) :
    ℕ → Option ℕ → List ExpiredSnapshot → Timers → List ExpiredSnapshot × Timers
  | 0, _, snaps, s => (snaps, { s with diverged := true })
  | _ + 1, none, snaps, s => (snaps, s)
  | fuel + 1, some t, snaps, s =>
    if maxExpired ≤ snaps.length then (snaps, { s with faulted := true })
    else
      match s.checkExpired (now t) t with
      | (true, s') =>
        collect maxExpired now fuel (s'.links.next t) (snaps ++ [⟨t, s'.onExpired t⟩]) s'
      | (false, s') => collect maxExpired now fuel (s'.links.next t) snaps s'

/-- The part of `ProcessTimers` that holds the lock. -/
def processTimers (maxExpired : ℕ) (now : ℕ → Readings) (s : Timers) : Timers :=
  let s₁ := s.removeStopped
  let (snaps, s₂) := s₁.collect maxExpired now s₁.fuel s₁.links.head []
  { s₂ with snapshots := Function.update s₂.snapshots s₂.passes snaps, passes := s₂.passes + 1 }

/-- One round of `InvokeSnapshot` in the pass `i`, or the release of a snapshot
whose delegates have all been called. -/
def advance (i : ℕ) (s : Timers) : Timers :=
  { s with
    snapshots := Function.update s.snapshots i
      (match s.snapshots i with
      | ⟨t, _ :: ds⟩ :: rest => ⟨t, ds⟩ :: rest
      | ⟨_, []⟩ :: rest => rest
      | [] => []) }

/-- The timer and the subscriber that the next step of the pass `i` calls. -/
def nextCallback (i : ℕ) (s : Timers) : Option (ℕ × ℕ) :=
  match s.snapshots i with
  | ⟨t, d :: _⟩ :: _ => some (t, d)
  | _ => none

end Timers

/-! ## The transition system -/

inductive TimerLabel where
  | construct (t : ℕ)
  | destroy (t : ℕ)
  | start (t : ℕ) (timeout : ℤ) (once : Bool) (now : ℤ)
  | stop (t : ℕ)
  /-- `OnExpired.Connect` -/
  | connect (t d : ℕ)
  /-- `Disconnect` on a connection to `OnExpired` -/
  | disconnect (t d : ℕ)
  | processTimers (now : ℕ → Readings)
  | advance (i : ℕ)

namespace Timers

/-- Members are called on objects that exist. -/
def guard : TimerLabel → Timers → Prop
  | .construct t, s => s.faulted = false ∧ t ∉ s.objects
  | .destroy t, s => s.faulted = false ∧ t ∈ s.objects
  | .start t _ _ _, s => s.faulted = false ∧ t ∈ s.objects
  | .stop t, s => s.faulted = false ∧ t ∈ s.objects
  | .connect t _, s => s.faulted = false ∧ t ∈ s.objects
  | .disconnect t _, s => s.faulted = false ∧ t ∈ s.objects
  | .processTimers _, s => s.faulted = false
  | .advance i, s => s.faulted = false ∧ i < s.passes ∧ s.snapshots i ≠ []

def update (maxExpired : ℕ) : TimerLabel → Timers → Timers
  | .construct t, s => s.construct t
  | .destroy t, s => s.destroy t
  | .start t timeout once now, s => s.start t timeout once now
  | .stop t, s => s.stop t
  | .connect t d, s => { s with onExpired := Function.update s.onExpired t (s.onExpired t ++ [d]) }
  | .disconnect t d, s =>
    { s with onExpired := Function.update s.onExpired t ((s.onExpired t).filter (· ≠ d)) }
  | .processTimers now, s => s.processTimers maxExpired now
  | .advance i, s => s.advance i

instance (l : TimerLabel) (s : Timers) : Decidable (guard l s) := by
  cases l <;> simp only [guard] <;> infer_instance

end Timers

def timerLts (maxExpired : ℕ) : Lts Timers TimerLabel where
  init := fun s => s = Timers.initial
  guard := Timers.guard
  update := Timers.update maxExpired

instance (maxExpired : ℕ) (l : TimerLabel) (s : Timers) :
    Decidable ((timerLts maxExpired).guard l s) :=
  inferInstanceAs (Decidable (Timers.guard l s))

end AsyncSqlite
