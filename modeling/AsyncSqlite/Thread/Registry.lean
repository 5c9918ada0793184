import Mathlib.Data.Int.Notation
import Mathlib.Data.List.Perm.Subperm
import AsyncSqlite.Heap.IntrusiveList
import AsyncSqlite.Lts.Core

/-!
# AsyncSqlite.Thread.Registry — the list of watched threads

Any number of stdlib `Thread` objects and the intrusive list behind
`GetWatchdogLock`. `CreateThread` puts an object in front unless the list has it, and
only `~Thread` takes it out, so that an object stays in the list while its thread has
exited and is created again. `RegistryInv` says which objects the list holds.
-/

namespace AsyncSqlite

structure WatchdogRegistry where
  /-- `GetWatchdogHead` and `m_watchdogNext` -/
  links : Links ℕ
  /-- `m_thread` has a value -/
  thread : ℕ → Bool
  lastAliveTime : ℕ → ℤ
  watchdogTimeout : ℕ → ℤ
  /-- the objects that are constructed and not destroyed -/
  objects : List ℕ
  /-- a `CreateThread` with a timeout has created a thread of the object -/
  watched : ℕ → Bool
  /-- `WatchdogHandler` was called, which does not return -/
  ended : Bool
  /-- a loop over the list did not end -/
  diverged : Bool

namespace WatchdogRegistry

def initial : WatchdogRegistry where
  links := ⟨none, fun _ => none⟩
  thread := fun _ => false
  lastAliveTime := fun _ => 0
  watchdogTimeout := fun _ => 0
  objects := []
  watched := fun _ => false
  ended := false
  diverged := false

/-- More rounds than a walk over distinct objects takes. -/
def fuel (s : WatchdogRegistry) : ℕ := s.objects.length + 1

/-- The constructor of the object `t`. -/
def construct (t : ℕ) (s : WatchdogRegistry) : WatchdogRegistry :=
  { s with
    links := s.links.write (.next t) none
    thread := Function.update s.thread t false
    watched := Function.update s.watched t false
    objects := t :: s.objects }

/-- The critical section of `CreateThread`. -/
def addToRegistry (t : ℕ) (s : WatchdogRegistry) : WatchdogRegistry :=
  match s.links.find t s.fuel s.links.head with
  | some true => s
  | some false => { s with links := s.links.pushFront t }
  | none => { s with diverged := true }

/-- `CreateThread`, when the clock reads `now`. -/
def createThread (t : ℕ) (watchdogTimeout : Option ℤ) (now : ℤ) (s : WatchdogRegistry) :
    WatchdogRegistry :=
  if s.thread t then s
  else
    let s := { s with
      thread := Function.update s.thread t true
      lastAliveTime := Function.update s.lastAliveTime t now }
    match watchdogTimeout with
    | none => s
    | some timeout => addToRegistry t { s with
        watchdogTimeout := Function.update s.watchdogTimeout t timeout
        watched := Function.update s.watched t true }

def exitThread (t : ℕ) (s : WatchdogRegistry) : WatchdogRegistry :=
  { s with thread := Function.update s.thread t false }

/-- `~Thread` -/
def destroy (t : ℕ) (s : WatchdogRegistry) : WatchdogRegistry :=
  let s := s.exitThread t
  match s.links.unlink t s.fuel .head with
  | some links => { s with links := links, objects := s.objects.erase t }
  | none => { s with diverged := true }

/-- `ThreadCheck`, and the stores of the worker's loop. -/
def threadCheck (t : ℕ) (now : ℤ) (s : WatchdogRegistry) : WatchdogRegistry :=
  { s with lastAliveTime := Function.update s.lastAliveTime t now }

/-- `WatchdogCheck` of the object `t` calls `WatchdogHandler`. -/
def watchdogCheck (now : ℕ → ℤ) (s : WatchdogRegistry) (t : ℕ) : Bool :=
  decide (0 < s.watchdogTimeout t) && decide (s.watchdogTimeout t < now t - s.lastAliveTime t)

/-- The loop of `WatchdogCheckAll`: the objects that it has visited, and whether it came
to its end; `none` if the fuel ran out. -/
def checkFrom (check : ℕ → Bool) (links : Links ℕ) :
    ℕ → Option ℕ → List ℕ → Option (List ℕ × Bool)
  | 0, _, _ => none
  | _ + 1, none, visited => some (visited, true)
  | fuel + 1, some p, visited =>
    if check p then some (visited ++ [p], false)
    else checkFrom check links fuel (links.next p) (visited ++ [p])

def checkAll (now : ℕ → ℤ) (s : WatchdogRegistry) : Option (List ℕ × Bool) :=
  checkFrom (s.watchdogCheck now) s.links s.fuel s.links.head []

/-- `WatchdogCheckAll` -/
def watchdogCheckAll (now : ℕ → ℤ) (s : WatchdogRegistry) : WatchdogRegistry :=
  match s.checkAll now with
  | some (_, true) => s
  | some (_, false) => { s with ended := true }
  | none => { s with diverged := true }

end WatchdogRegistry

inductive RegistryLabel where
  | construct (t : ℕ)
  | createThread (t : ℕ) (watchdogTimeout : Option ℤ) (now : ℤ)
  | exitThread (t : ℕ)
  | destroy (t : ℕ)
  | threadCheck (t : ℕ) (now : ℤ)
  | watchdogCheckAll (now : ℕ → ℤ)

namespace WatchdogRegistry

/-- Members are called on objects that exist. -/
def guard : RegistryLabel → WatchdogRegistry → Prop
  | .construct t, s => s.ended = false ∧ t ∉ s.objects
  | .createThread t _ _, s | .exitThread t, s | .destroy t, s | .threadCheck t _, s =>
    s.ended = false ∧ t ∈ s.objects
  | .watchdogCheckAll _, s => s.ended = false

def update : RegistryLabel → WatchdogRegistry → WatchdogRegistry
  | .construct t, s => s.construct t
  | .createThread t timeout now, s => s.createThread t timeout now
  | .exitThread t, s => s.exitThread t
  | .destroy t, s => s.destroy t
  | .threadCheck t now, s => s.threadCheck t now
  | .watchdogCheckAll now, s => s.watchdogCheckAll now

instance : ∀ l s, Decidable (guard l s)
  | .construct t, s => inferInstanceAs (Decidable (s.ended = false ∧ t ∉ s.objects))
  | .createThread t _ _, s | .exitThread t, s | .destroy t, s | .threadCheck t _, s =>
    inferInstanceAs (Decidable (s.ended = false ∧ t ∈ s.objects))
  | .watchdogCheckAll _, s => inferInstanceAs (Decidable (s.ended = false))

end WatchdogRegistry

def registryLts : Lts WatchdogRegistry RegistryLabel where
  init := fun s => s = WatchdogRegistry.initial
  guard := WatchdogRegistry.guard
  update := WatchdogRegistry.update

instance (l : RegistryLabel) (s : WatchdogRegistry) : Decidable (registryLts.guard l s) :=
  inferInstanceAs (Decidable (WatchdogRegistry.guard l s))

namespace WatchdogRegistry

variable {s : WatchdogRegistry} {l : List ℕ} {t : ℕ}

/-! ## The invariant -/

/-- The list holds exactly the objects that were created with a timeout. -/
structure RegistryInv (l : List ℕ) (s : WatchdogRegistry) : Prop where
  holds : s.links.Holds l
  exact : ∀ t, t ∈ l ↔ t ∈ s.objects ∧ s.watched t = true
  objects : s.objects.Nodup
  ended : s.diverged = false

/-- A loop over the list has enough fuel. -/
theorem RegistryInv.length_lt (h : RegistryInv l s) : l.length < s.fuel := by
  have hsub : l.Subperm s.objects :=
    List.subperm_of_subset h.holds.nodup fun t ht => ((h.exact t).mp ht).1
  have hlen := hsub.length_le
  unfold fuel
  omega

theorem RegistryInv.construct (h : RegistryInv l s) (ht : t ∉ s.objects) :
    RegistryInv l (s.construct t) := by
  have hout : t ∉ l := fun hl => ht ((h.exact t).mp hl).1
  constructor
  · apply h.holds.congr
    intro a ha
    have hat : a ≠ t := by
      rintro rfl
      exact hout ha
    exact Function.update_of_ne hat _ _
  · intro a
    show a ∈ l ↔ a ∈ t :: s.objects ∧ Function.update s.watched t false a = true
    by_cases hat : a = t
    · subst hat
      simp [hout]
    · rw [Function.update_of_ne hat, List.mem_cons, h.exact]
      simp [hat]
  · exact List.nodup_cons.mpr ⟨ht, h.objects⟩
  · exact h.ended

/-- Only the links, the objects and what is watched matter. -/
theorem RegistryInv.congr (h : RegistryInv l s) {s' : WatchdogRegistry}
    (hlinks : s'.links = s.links) (hobjects : s'.objects = s.objects)
    (hwatched : s'.watched = s.watched) (hdiv : s'.diverged = s.diverged) : RegistryInv l s' := by
  constructor
  · rw [hlinks]
    exact h.holds
  · rw [hobjects, hwatched]
    exact h.exact
  · rw [hobjects]
    exact h.objects
  · exact hdiv.trans h.ended

/-- The object is put in front, unless the list has it. -/
theorem RegistryInv.addToRegistry (h : RegistryInv l s) (ht : t ∈ s.objects) :
    ∃ l', RegistryInv l' (addToRegistry t
      { s with watched := Function.update s.watched t true }) := by
  have hfind := Links.Path.find h.holds t h.length_lt
  have hwatched : ∀ a, a ∈ s.objects ∧ Function.update s.watched t true a = true ↔
      a = t ∨ a ∈ l := by
    intro a
    by_cases hat : a = t
    · subst hat
      simp [ht]
    · rw [Function.update_of_ne hat, ← h.exact]
      simp [hat]
  unfold WatchdogRegistry.addToRegistry
  change s.links.find t s.fuel s.links.head = _ at hfind
  show ∃ l', RegistryInv l' (match s.links.find t s.fuel s.links.head with
    | some true => { s with watched := Function.update s.watched t true }
    | some false => { s with
        watched := Function.update s.watched t true, links := s.links.pushFront t }
    | none => { s with watched := Function.update s.watched t true, diverged := true })
  rw [hfind]
  by_cases hl : t ∈ l
  · rw [decide_eq_true hl]
    refine ⟨l, h.holds, fun a => ?_, h.objects, h.ended⟩
    rw [hwatched]
    constructor
    · exact Or.inr
    · rintro (rfl | ha)
      · exact hl
      · exact ha
  · rw [decide_eq_false hl]
    refine ⟨t :: l, h.holds.pushFront hl, fun a => ?_, h.objects, h.ended⟩
    rw [hwatched, List.mem_cons]

theorem RegistryInv.createThread (h : RegistryInv l s) (ht : t ∈ s.objects) (timeout : Option ℤ)
    (now : ℤ) : ∃ l', RegistryInv l' (s.createThread t timeout now) := by
  unfold WatchdogRegistry.createThread
  split
  · exact ⟨l, h⟩
  · cases timeout with
    | none => exact ⟨l, h.congr rfl rfl rfl rfl⟩
    | some timeout =>
      have h' : RegistryInv l { s with
          thread := Function.update s.thread t true
          lastAliveTime := Function.update s.lastAliveTime t now
          watchdogTimeout := Function.update s.watchdogTimeout t timeout } :=
        h.congr rfl rfl rfl rfl
      exact h'.addToRegistry ht

theorem RegistryInv.destroy (h : RegistryInv l s) (t : ℕ) :
    RegistryInv (l.erase t) (s.destroy t) := by
  rcases h.holds.unlink t h.length_lt with ⟨links, hrun, hholds⟩
  have heq : s.destroy t = { s.exitThread t with
      links := links, objects := s.objects.erase t } := by
    unfold WatchdogRegistry.destroy
    show (match s.links.unlink t s.fuel .head with
      | some links => { s.exitThread t with links := links, objects := s.objects.erase t }
      | none => { s.exitThread t with diverged := true }) = _
    rw [hrun]
  rw [heq]
  constructor
  · exact hholds
  · intro a
    show a ∈ l.erase t ↔ a ∈ s.objects.erase t ∧ s.watched a = true
    rw [h.holds.nodup.mem_erase_iff, h.objects.mem_erase_iff, h.exact, and_assoc]
  · exact h.objects.erase t
  · exact h.ended

/-! ## `WatchdogCheckAll` -/

/-- The loop visits the list from its front, up to an object whose check does not
return. The induction is on the list. -/
theorem checkFrom_path (check : ℕ → Bool) {links : Links ℕ} {p : Option ℕ} {fuel : ℕ}
    (hpath : links.Path p l) (hfuel : l.length < fuel) (visited : List ℕ) :
    ((∀ t ∈ l, check t = false) ∧
      checkFrom check links fuel p visited = some (visited ++ l, true)) ∨
    ∃ front t back, l = front ++ t :: back ∧ check t = true ∧
      checkFrom check links fuel p visited = some (visited ++ front ++ [t], false) := by
  induction l generalizing p fuel visited with
  | nil =>
    rcases fuel with _ | fuel
    · exact absurd hfuel (Nat.not_lt_zero _)
    · unfold Links.Path at hpath
      subst hpath
      left
      simp [checkFrom]
  | cons t l ih =>
    rcases fuel with _ | fuel
    · exact absurd hfuel (Nat.not_lt_zero _)
    rcases hpath with ⟨rfl, hpath⟩
    unfold checkFrom
    cases hcheck : check t with
    | true =>
      right
      exact ⟨[], t, l, rfl, hcheck, by simp⟩
    | false =>
      rcases ih hpath (Nat.lt_of_succ_lt_succ hfuel) (visited ++ [t]) with
        ⟨hall, hrun⟩ | ⟨front, u, back, hl, hu, hrun⟩
      · left
        constructor
        · intro u hu
          rcases List.mem_cons.mp hu with rfl | hu
          · exact hcheck
          · exact hall u hu
        · simpa using hrun
      · right
        refine ⟨t :: front, u, back, by rw [hl]; rfl, hu, ?_⟩
        simpa using hrun

theorem RegistryInv.watchdogCheckAll (h : RegistryInv l s) (now : ℕ → ℤ) :
    RegistryInv l (s.watchdogCheckAll now) := by
  unfold WatchdogRegistry.watchdogCheckAll checkAll
  rcases checkFrom_path (s.watchdogCheck now) h.holds h.length_lt [] with
    ⟨_, hrun⟩ | ⟨front, t, back, _, _, hrun⟩
  · rw [hrun]
    exact h
  · rw [hrun]
    exact h.congr rfl rfl rfl rfl

/-! ## Whole runs -/

theorem RegistryInv.initial : RegistryInv [] WatchdogRegistry.initial :=
  ⟨rfl, by simp [WatchdogRegistry.initial], List.nodup_nil, rfl⟩

theorem RegistryInv.step {L : RegistryLabel} (h : RegistryInv l s) (hg : guard L s) :
    ∃ l', RegistryInv l' (update L s) := by
  cases L with
  | construct t => exact ⟨l, h.construct hg.2⟩
  | createThread t timeout now => exact h.createThread hg.2 timeout now
  | exitThread t => exact ⟨l, h.congr rfl rfl rfl rfl⟩
  | destroy t => exact ⟨l.erase t, h.destroy t⟩
  | threadCheck t now => exact ⟨l, h.congr rfl rfl rfl rfl⟩
  | watchdogCheckAll now => exact ⟨l, h.watchdogCheckAll now⟩

theorem registry_of_reachable (hr : registryLts.Reachable s) : ∃ l, RegistryInv l s := by
  refine hr.induct (P := fun s => ∃ l, RegistryInv l s) ?_ ?_
  · rintro s rfl
    exact ⟨[], .initial⟩
  · intro L s _ hg _ h
    rcases h with ⟨l, h⟩
    exact h.step hg

/-- In every reachable state the list leads through distinct objects to null, and these
are the objects that were created with a watchdog timeout and are not destroyed.
`WatchdogCheckAll` comes to an end on it: it visits each of them once, unless one of
them has been silent for longer than its timeout, which ends the program. -/
theorem watchdog_registry_invariant (hr : registryLts.Reachable s) :
    s.diverged = false ∧ ∃ l, s.links.Holds l ∧ l.Nodup ∧
      (∀ t, t ∈ l ↔ t ∈ s.objects ∧ s.watched t = true) ∧
      ∀ now, s.checkAll now = some (l, true) ∨
        ∃ front t back, l = front ++ t :: back ∧ s.watchdogCheck now t = true ∧
          s.checkAll now = some (front ++ [t], false) := by
  rcases registry_of_reachable hr with ⟨l, h⟩
  refine ⟨h.ended, l, h.holds, h.holds.nodup, h.exact, fun now => ?_⟩
  rcases checkFrom_path (s.watchdogCheck now) h.holds h.length_lt [] with
    ⟨_, hrun⟩ | ⟨front, t, back, hl, ht, hrun⟩
  · exact Or.inl hrun
  · exact Or.inr ⟨front, t, back, hl, ht, hrun⟩

/-- Two threads exit and one of them is created again, before the other is destroyed. -/
theorem watchdog_registry_invariant_run :
    ∃ s, registryLts.Reachable s ∧ ∃ l, s.links.Holds l ∧ 0 ∈ l ∧ 1 ∉ l ∧ 2 ∉ l := by
  obtain ⟨s, hr, hp⟩ := registryLts.execWhen_reachable Lts.always rfl
    [.construct 0, .construct 1, .construct 2, .createThread 0 (some 5) 0,
      .createThread 1 (some 7) 0, .createThread 2 none 0, .exitThread 0, .exitThread 1,
      .watchdogCheckAll fun _ => 3, .createThread 0 (some 9) 4, .destroy 1]
    (fun s => s.objects = [2, 0] ∧ s.watched 0 = true ∧ s.watched 2 = false)
    (by decide +kernel)
  obtain ⟨hobjects, hzero, htwo⟩ : _ ∧ _ ∧ _ := of_decide_eq_true hp
  obtain ⟨-, l, hholds, -, hexact, -⟩ := watchdog_registry_invariant hr
  refine ⟨s, hr, l, hholds, ?_, ?_, ?_⟩
  · rw [hexact, hobjects, hzero]
    simp
  · rw [hexact, hobjects]
    simp
  · rw [hexact, htwo]
    simp

end WatchdogRegistry

end AsyncSqlite
