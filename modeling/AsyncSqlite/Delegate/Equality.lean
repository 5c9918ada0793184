import AsyncSqlite.Remote.Monitor
import AsyncSqlite.Thread.Model

/-!
# AsyncSqlite.Delegate.Equality — `Equal` of the delegate classes

`operator==` of two delegates calls the virtual `Equal` of the left one, which
casts the right one to its own class with `dynamic_cast` and compares the members
of that class. The asynchronous and remote classes derive from the synchronous
ones, so the cast of a synchronous `Equal` succeeds for them too, and what they
add is not compared.

A function, an object, a class, a type and a thread are numbers. `alive` tells
which objects still exist; only a `weak_ptr` asks for it.
-/

namespace AsyncSqlite

/-- What a `std::function` holds. -/
structure Callable where
  /-- `target_type()` -/
  targetType : ℕ
  /-- what distinguishes two callables of one type: a pointer, the captures -/
  value : ℕ
deriving DecidableEq, Repr

/-- The synchronous class of a delegate and what it is bound to. -/
inductive BoundTarget where
  /-- `DelegateFree` -/
  | free (func : Option ℕ)
  /-- `DelegateMember` of the class `cls` -/
  | member (cls : ℕ) (object func : Option ℕ)
  /-- `DelegateMemberSp` of the class `cls`, with a `weak_ptr` to the object -/
  | memberSp (cls : ℕ) (object func : Option ℕ)
  /-- `DelegateFunction` -/
  | function (func : Option Callable)
deriving DecidableEq, Repr

/-- What the derived class of a delegate adds. -/
inductive DelegateMode where
  | sync
  | async (thread : Option ℕ) (priority : Priority)
  | asyncWait (thread : Option ℕ) (priority : Priority) (timeout : ℕ)
  /-- `link` stands for `m_dispatcher`, `m_stream` and `m_serializer` -/
  | remote (id : DelegateRemoteId) (link : ℕ)
deriving DecidableEq, Repr

namespace BoundTarget

/-- `weak_ptr::lock`. -/
def lock (alive : ℕ → Bool) (object : Option ℕ) : Option ℕ := object.filter alive

/-- `Empty`. -/
def isEmpty (alive : ℕ → Bool) : BoundTarget → Bool
  | .free func => func.isNone
  | .member _ object func => object.isNone || func.isNone
  | .memberSp _ object func => (lock alive object).isNone || func.isNone
  | .function func => func.isNone

/-- `Equal` of the synchronous class. -/
def equal (alive : ℕ → Bool) : BoundTarget → BoundTarget → Bool
  | .free f, .free f' => f = f'
  | .member cls object f, .member cls' object' f' => cls = cls' && f = f' && object = object'
  | .memberSp cls object f, .memberSp cls' object' f' =>
    cls = cls' && lock alive object = lock alive object' && f = f'
  | .function none, .function none => true
  | .function (some f), .function (some f') => f.targetType = f'.targetType
  | _, _ => false

def isMemberSp : BoundTarget → Bool
  | .memberSp .. => true
  | _ => false

/-- What `Equal` gets to see of a target. -/
def seen (alive : ℕ → Bool) : BoundTarget → BoundTarget
  | .memberSp cls object f => .memberSp cls (lock alive object) f
  | .function func => .function (func.map fun f => ⟨f.targetType, 0⟩)
  | t => t

/-- The two differ in the value of their callables at most. -/
def Similar (t t' : BoundTarget) : Prop :=
  t = t' ∨ ∃ f f', t = .function (some f) ∧ t' = .function (some f') ∧
    f.targetType = f'.targetType

end BoundTarget

namespace DelegateMode

/-- The cast to the left class and the members that it adds. -/
def equal : DelegateMode → DelegateMode → Bool
  | .sync, _ => true
  | .async thread priority, .async thread' priority' => thread = thread' && priority = priority'
  | .asyncWait thread priority timeout, .asyncWait thread' priority' timeout' =>
    thread = thread' && priority = priority' && timeout = timeout'
  | .remote id _, .remote id' _ => id = id'
  | _, _ => false

def isRemote : DelegateMode → Bool
  | .remote .. => true
  | _ => false

end DelegateMode

/-- A delegate. There is no remote class over `DelegateMemberSp`. -/
structure BoundDelegate where
  target : BoundTarget
  mode : DelegateMode
  noRemoteSp : (target.isMemberSp && mode.isRemote) = false
deriving DecidableEq

namespace BoundDelegate

/-- `Equal`. -/
def equal (alive : ℕ → Bool) (a b : BoundDelegate) : Bool :=
  a.mode.equal b.mode && a.target.equal alive b.target

/-- `operator()` does something: it calls the target or sends a message. A remote
delegate sends whether or not it has a target. -/
def heard (alive : ℕ → Bool) (d : BoundDelegate) : Bool :=
  match d.mode with
  | .sync => !d.target.isEmpty alive
  | .async thread _ | .asyncWait thread _ _ => thread.isSome && !d.target.isEmpty alive
  | .remote .. => true

/-- While every object exists. -/
def allAlive : ℕ → Bool := fun _ => true

end BoundDelegate

/-! ## `Equal` as a relation -/

namespace BoundTarget

variable {alive : ℕ → Bool} {t t' : BoundTarget}

theorem equal_iff : t.equal alive t' = true ↔ t.seen alive = t'.seen alive := by
  cases t with
  | free f => cases t' <;> simp [equal, seen]
  | member cls object f =>
    cases t' with
    | member cls' object' f' =>
      simp only [equal, seen, Bool.and_eq_true, decide_eq_true_eq, member.injEq]
      rw [and_right_comm, and_assoc]
    | _ => simp [equal, seen]
  | memberSp cls object f => cases t' <;> simp [equal, seen, and_assoc]
  | function func =>
    cases t' with
    | function func' => cases func <;> cases func' <;> simp [equal, seen]
    | _ => simp [equal, seen]

theorem isEmpty_seen (t : BoundTarget) :
    (t.seen alive).isEmpty BoundDelegate.allAlive = t.isEmpty alive := by
  cases t with
  | memberSp cls object f => simp [seen, isEmpty, lock, BoundDelegate.allAlive]
  | function func => cases func <;> rfl
  | _ => rfl

theorem isMemberSp_seen (t : BoundTarget) : (t.seen alive).isMemberSp = t.isMemberSp := by
  cases t <;> rfl

theorem lock_allAlive (object : Option ℕ) : lock BoundDelegate.allAlive object = object := by
  cases object <;> rfl

theorem seen_allAlive_iff :
    t.seen BoundDelegate.allAlive = t'.seen BoundDelegate.allAlive ↔ t.Similar t' := by
  constructor
  · intro h
    cases t with
    | function func =>
      cases t' with
      | function func' =>
        cases func with
        | none => cases func' <;> simp_all [seen, Similar]
        | some f => cases func' <;> simp_all [seen, Similar]
      | _ => simp [seen] at h
    | _ => cases t' <;> simp_all [seen, Similar, lock_allAlive]
  · rintro (rfl | ⟨f, f', rfl, rfl, htype⟩)
    · rfl
    · simp [seen, htype]

/-- An object that is alive is told apart from every other one. -/
theorem seen_allAlive (h : t.seen alive = t'.seen alive)
    (hlive : t.isMemberSp = true → t.isEmpty alive = false) :
    t.seen BoundDelegate.allAlive = t'.seen BoundDelegate.allAlive := by
  cases t with
  | memberSp cls object f =>
    cases t' with
    | memberSp cls' object' f' =>
      have hbound := hlive rfl
      simp only [isEmpty, Bool.or_eq_false_iff, Option.isNone_eq_false_iff] at hbound
      simp only [seen, memberSp.injEq] at h ⊢
      rcases Option.isSome_iff_exists.mp hbound.1 with ⟨o, ho⟩
      have hleft : object = some o := (Option.filter_eq_some_iff.mp ho).1
      have hright : object' = some o := (Option.filter_eq_some_iff.mp (h.2.1 ▸ ho)).1
      rw [hleft, hright]
      exact ⟨h.1, rfl, h.2.2⟩
    | _ => simp [seen] at h
  | _ => cases t' <;> first | exact h | cases h

end BoundTarget

namespace DelegateMode

/-- What `Equal` gets to see of the members of a derived class. -/
def seen : DelegateMode → DelegateMode
  | .remote id _ => .remote id 0
  | mode => mode

theorem equal_iff {m m' : DelegateMode} : m.equal m' = true ↔ m = .sync ∨ m.seen = m'.seen := by
  cases m <;> cases m' <;> simp [equal, seen, and_assoc]

end DelegateMode

namespace BoundDelegate

variable {alive : ℕ → Bool} {a b c : BoundDelegate}

theorem equal_iff : a.equal alive b = true ↔
    (a.mode = .sync ∨ a.mode.seen = b.mode.seen) ∧ a.target.seen alive = b.target.seen alive := by
  rw [equal, Bool.and_eq_true, DelegateMode.equal_iff, BoundTarget.equal_iff]

theorem equal_refl (a : BoundDelegate) : a.equal alive a = true :=
  equal_iff.mpr ⟨Or.inr rfl, rfl⟩

theorem equal_trans (h : a.equal alive b = true) (h' : b.equal alive c = true) :
    a.equal alive c = true := by
  rw [equal_iff] at h h' ⊢
  refine ⟨?_, h.2.trans h'.2⟩
  rcases h.1 with hsync | hseen
  · exact Or.inl hsync
  · rcases h'.1 with hsync | hseen'
    · -- the class of `b` is the synchronous one, and so is the class of `a`
      rw [hsync] at hseen
      left
      cases ha : a.mode <;> simp [ha, DelegateMode.seen] at hseen ⊢
    · exact Or.inr (hseen.trans hseen')

/-- `Equal` can be turned round unless a synchronous delegate is compared with
one of a derived class. -/
theorem equal_symm_iff (h : a.equal alive b = true) :
    b.equal alive a = true ↔ (a.mode = .sync → b.mode = .sync) := by
  rw [equal_iff] at h ⊢
  constructor
  · rintro ⟨hmode, -⟩ hsync
    rcases hmode with hb | hseen
    · exact hb
    · rw [hsync] at hseen
      cases hb : b.mode <;> simp [hb, DelegateMode.seen] at hseen ⊢
  · intro himp
    refine ⟨?_, h.2.symm⟩
    rcases h.1 with hsync | hseen
    · exact Or.inl (himp hsync)
    · exact Or.inr hseen.symm

/-- Nobody is heard from again whose object is gone. -/
theorem heard_mono {alive' : ℕ → Bool} (hmono : ∀ o, alive' o = true → alive o = true)
    (h : a.heard alive' = true) : a.heard alive = true := by
  have hempty : a.target.isEmpty alive' = false → a.target.isEmpty alive = false := by
    cases a.target with
    | memberSp cls object f =>
      simp only [BoundTarget.isEmpty, Bool.or_eq_false_iff, Option.isNone_eq_false_iff]
      rintro ⟨hobject, hf⟩
      rcases Option.isSome_iff_exists.mp hobject with ⟨o, ho⟩
      rcases Option.filter_eq_some_iff.mp ho with ⟨hobj, halive⟩
      have hlock : BoundTarget.lock alive object = some o :=
        Option.filter_eq_some_iff.mpr ⟨hobj, hmono o halive⟩
      rw [hlock]
      exact ⟨rfl, hf⟩
    | _ => exact id
  unfold heard at h ⊢
  cases ha : a.mode <;> simp_all

/-- Whoever is heard from through a `weak_ptr` holds an object that is alive. -/
theorem not_isEmpty_of_heard (hsp : a.target.isMemberSp = true) (h : a.heard alive = true) :
    a.target.isEmpty alive = false := by
  have hremote := a.noRemoteSp
  rw [hsp, Bool.true_and] at hremote
  unfold heard at h
  cases ha : a.mode <;> simp_all [DelegateMode.isRemote]

/-- A dead object is equal to every other dead one, but nobody hears from either. -/
theorem equal_allAlive (h : a.equal alive b = true)
    (hheard : a.heard alive = true ∨ b.heard alive = true) : a.equal allAlive b = true := by
  rw [equal_iff] at h ⊢
  refine ⟨h.1, BoundTarget.seen_allAlive h.2 ?_⟩
  intro hsp
  rcases hheard with ha | hb
  · exact not_isEmpty_of_heard hsp ha
  · have hsp' : b.target.isMemberSp = true := by
      rw [← BoundTarget.isMemberSp_seen, ← h.2, BoundTarget.isMemberSp_seen]
      exact hsp
    rw [← BoundTarget.isEmpty_seen, h.2, BoundTarget.isEmpty_seen]
    exact not_isEmpty_of_heard hsp' hb

/-- While every object exists, `Equal` overlooks what a derived class adds to a
synchronous left side, what a `std::function` holds beside its type, and through
what a remote delegate sends. -/
theorem equal_allAlive_iff : a.equal allAlive b = true ↔
    (a.mode = .sync ∨ a.mode.seen = b.mode.seen) ∧ a.target.Similar b.target := by
  rw [equal_iff, BoundTarget.seen_allAlive_iff]

end BoundDelegate

end AsyncSqlite
