import Mathlib.Data.Nat.ModEq
import AsyncSqlite.Lts.Core

/-!
# AsyncSqlite.Remote.RingBuffer — `UartRingBuffer` between an ISR and a task

One producer and one consumer without a lock. Every access to `m_head`, `m_tail` or
`m_buffer` is a step of its own, and anything the other side does may come between two
of them. `m_head == m_tail` reads its operands in either order.

`accepted` and `returned` record the bytes of the calls that succeed, at the access
that makes them visible to the other side. The indices are their lengths modulo `Size`
(`RingInv`), and each side knows about the other only what stays true when it moves on.
-/

namespace AsyncSqlite

/-- Where a `Put` is, with its locals. -/
inductive PutPc where
  | idle
  /-- about to compare `next_head` with `m_tail` -/
  | compare (data : UInt8) (nextHead : ℕ)
  /-- about to read `m_head` for the index -/
  | index (data : UInt8) (nextHead : ℕ)
  /-- about to write `m_buffer[i]` -/
  | store (data : UInt8) (nextHead i : ℕ)
  /-- about to write `m_head` -/
  | publish (data : UInt8) (nextHead : ℕ)
deriving DecidableEq

/-- Where a `Get` is, with its locals. -/
inductive GetPc where
  | idle
  /-- `m_head` has been read; about to compare it with `m_tail` -/
  | compareTail (head : ℕ)
  /-- `m_tail` has been read; about to compare it with `m_head` -/
  | compareHead (tail : ℕ)
  /-- about to read `m_tail` for the index -/
  | index
  /-- about to read `m_buffer[i]` -/
  | load (i : ℕ)
  /-- about to read `m_tail` for its successor -/
  | next (data : UInt8)
  /-- about to write `m_tail` -/
  | release (data : UInt8) (tail : ℕ)
deriving DecidableEq

structure UartRing where
  buffer : ℕ → UInt8
  head : ℕ
  tail : ℕ
  producer : PutPc
  consumer : GetPc
  accepted : List UInt8
  returned : List UInt8
  /-- how many bytes were unread when the last `Get` read `m_head` -/
  unreadAtHead : ℕ

inductive RingLabel where
  /-- `Put` begins, and reads `m_head` -/
  | put (data : UInt8)
  /-- the next access of `Put` -/
  | producer
  /-- `Get` begins, and reads `m_head` -/
  | getHead
  /-- `Get` begins, and reads `m_tail` -/
  | getTail
  /-- the next access of `Get` -/
  | consumer

namespace UartRing

def initial (buffer : ℕ → UInt8) : UartRing := ⟨buffer, 0, 0, .idle, .idle, [], [], 0⟩

/-- The bytes that are accepted and not returned. -/
def unread (s : UartRing) : ℕ := s.accepted.length - s.returned.length

def producerStep (s : UartRing) : UartRing :=
  match s.producer with
  | .idle => s
  | .compare data nextHead =>
    if nextHead = s.tail then { s with producer := .idle }
    else { s with producer := .index data nextHead }
  | .index data nextHead => { s with producer := .store data nextHead s.head }
  | .store data nextHead i =>
    { s with buffer := Function.update s.buffer i data, producer := .publish data nextHead }
  | .publish data nextHead =>
    { s with head := nextHead, accepted := s.accepted ++ [data], producer := .idle }

def consumerStep (Size : ℕ) (s : UartRing) : UartRing :=
  match s.consumer with
  | .idle => s
  | .compareTail head =>
    if head = s.tail then { s with consumer := .idle } else { s with consumer := .index }
  | .compareHead tail =>
    if s.head = tail then { s with consumer := .idle, unreadAtHead := s.unread }
    else { s with consumer := .index, unreadAtHead := s.unread }
  | .index => { s with consumer := .load s.tail }
  | .load i => { s with consumer := .next (s.buffer i) }
  | .next data => { s with consumer := .release data s.tail }
  | .release data tail =>
    { s with tail := (tail + 1) % Size, returned := s.returned ++ [data], consumer := .idle }

def guard : RingLabel → UartRing → Prop
  | .put _, s => s.producer = .idle
  | .producer, s => s.producer ≠ .idle
  | .getHead, s | .getTail, s => s.consumer = .idle
  | .consumer, s => s.consumer ≠ .idle

def update (Size : ℕ) : RingLabel → UartRing → UartRing
  | .put data, s => { s with producer := .compare data ((s.head + 1) % Size) }
  | .producer, s => s.producerStep
  | .getHead, s => { s with consumer := .compareTail s.head, unreadAtHead := s.unread }
  | .getTail, s => { s with consumer := .compareHead s.tail }
  | .consumer, s => s.consumerStep Size

instance : ∀ l s, Decidable (guard l s)
  | .put _, s => inferInstanceAs (Decidable (s.producer = .idle))
  | .producer, s => inferInstanceAs (Decidable (s.producer ≠ .idle))
  | .getHead, s | .getTail, s => inferInstanceAs (Decidable (s.consumer = .idle))
  | .consumer, s => inferInstanceAs (Decidable (s.consumer ≠ .idle))

/-- The `Put` in progress returns false at its next access, which reads `m_tail`. -/
def putFails (s : UartRing) : Prop := ∃ data, s.producer = .compare data s.tail

/-- The `Get` in progress returns false at its next access. -/
def getFails (s : UartRing) : Prop :=
  s.consumer = .compareTail s.tail ∨ s.consumer = .compareHead s.head

/-- How many bytes are unread when the `Get` in progress reads `m_head`. -/
def unreadForGet (s : UartRing) : ℕ :=
  match s.consumer with
  | .compareHead _ => s.unread
  | _ => s.unreadAtHead

end UartRing

def uartRingLts (Size : ℕ) : Lts UartRing RingLabel where
  init := fun s => ∃ buffer, s = UartRing.initial buffer
  guard := UartRing.guard
  update := UartRing.update Size

instance (Size : ℕ) (l : RingLabel) (s : UartRing) : Decidable ((uartRingLts Size).guard l s) :=
  inferInstanceAs (Decidable (UartRing.guard l s))

namespace UartRing

variable {Size : ℕ} {s : UartRing}

/-! ## The invariant -/

/-- Positions that are less than a round apart are in different cells. -/
theorem eq_of_mod_eq {n a b : ℕ} (hle : a ≤ b) (hlt : b < a + n) (h : a % n = b % n) : a = b := by
  have hdvd : n ∣ b - a := (Nat.modEq_iff_dvd' hle).mp h
  have hzero : b - a = 0 := Nat.eq_zero_of_dvd_of_lt hdvd (by omega)
  omega

/-- What a `Put` knows: `m_head` is its own, and there is room once it has been seen. -/
def PutOk (Size : ℕ) (s : UartRing) : PutPc → Prop
  | .idle => True
  | .compare _ nextHead => nextHead = (s.accepted.length + 1) % Size
  | .index _ nextHead => nextHead = (s.accepted.length + 1) % Size ∧ s.unread + 1 < Size
  | .store _ nextHead i => nextHead = (s.accepted.length + 1) % Size ∧ s.unread + 1 < Size ∧
      i = s.accepted.length % Size
  | .publish data nextHead => nextHead = (s.accepted.length + 1) % Size ∧ s.unread + 1 < Size ∧
      s.buffer (s.accepted.length % Size) = data

/-- What a `Get` knows: `m_tail` is its own, and a byte that has been seen stays. -/
def GetOk (Size : ℕ) (s : UartRing) : GetPc → Prop
  | .idle => True
  | .compareTail head => head = (s.returned.length + s.unreadAtHead) % Size ∧
      s.unreadAtHead ≤ s.unread
  | .compareHead tail => tail = s.returned.length % Size
  | .index => 0 < s.unread
  | .load i => 0 < s.unread ∧ i = s.returned.length % Size
  | .next data => s.accepted[s.returned.length]? = some data
  | .release data tail => s.accepted[s.returned.length]? = some data ∧
      tail = s.returned.length % Size

structure RingInv (Size : ℕ) (s : UartRing) : Prop where
  head : s.head = s.accepted.length % Size
  tail : s.tail = s.returned.length % Size
  fifo : s.returned <+: s.accepted
  room : s.unread < Size
  contents : ∀ k data, s.returned.length ≤ k → s.accepted[k]? = some data →
    s.buffer (k % Size) = data
  put : PutOk Size s s.producer
  get : GetOk Size s s.consumer

theorem RingInv.initial (hsize : 0 < Size) (buffer : ℕ → UInt8) :
    RingInv Size (UartRing.initial buffer) := by
  constructor
  · exact (Nat.zero_mod Size).symm
  · exact (Nat.zero_mod Size).symm
  · exact List.prefix_rfl
  · exact hsize
  · intro k data _ h
    cases h
  · trivial
  · trivial

theorem RingInv.length_eq (h : RingInv Size s) :
    s.accepted.length = s.returned.length + s.unread := by
  have hle := h.fifo.length_le
  unfold unread
  omega

/-! ## The producer -/

/-- A `Put` that only moves on. -/
theorem RingInv.withProducer (h : RingInv Size s) {pc : PutPc} (hpc : PutOk Size s pc) :
    RingInv Size { s with producer := pc } := by
  constructor
  · exact h.head
  · exact h.tail
  · exact h.fifo
  · exact h.room
  · exact h.contents
  · cases pc <;> exact hpc
  · have hget := h.get
    cases hc : s.consumer <;> rw [hc] at hget <;> exact hget

/-- There is room, unless the successor of the head is the tail. -/
theorem RingInv.room_of_ne (h : RingInv Size s) (hne : (s.accepted.length + 1) % Size ≠ s.tail) :
    s.unread + 1 < Size := by
  have hroom := h.room
  have hlen := h.length_eq
  by_contra hfull
  apply hne
  have hround : s.accepted.length + 1 = s.returned.length + Size := by omega
  rw [h.tail, hround, Nat.add_mod_right]

/-- The cell behind the head holds no byte that is unread. -/
theorem RingInv.store (h : RingInv Size s) {data : UInt8} {nextHead i : ℕ}
    (hpc : PutOk Size s (.store data nextHead i)) :
    RingInv Size { s with
      buffer := Function.update s.buffer i data, producer := .publish data nextHead } := by
  have ⟨hnext, hroom, hi⟩ := hpc
  have hlen := h.length_eq
  constructor
  · exact h.head
  · exact h.tail
  · exact h.fifo
  · exact h.room
  · intro k x hk hx
    change s.returned.length ≤ k at hk
    have hlt : k < s.accepted.length := (List.getElem?_eq_some_iff.mp hx).1
    have hki : k % Size ≠ i := by
      rw [hi]
      intro heq
      have hsame := eq_of_mod_eq (Nat.le_of_lt hlt) (by omega) heq
      omega
    show Function.update s.buffer i data (k % Size) = x
    rw [Function.update_of_ne hki]
    exact h.contents k x hk hx
  · refine ⟨hnext, hroom, ?_⟩
    show Function.update s.buffer i data (s.accepted.length % Size) = data
    rw [← hi, Function.update_self]
  · have hget := h.get
    cases hc : s.consumer <;> rw [hc] at hget <;> exact hget

/-- What a `Get` has seen stays true when a byte is accepted. -/
theorem GetOk.accept {s s' : UartRing} {data : UInt8} {pc : GetPc} (hget : GetOk Size s pc)
    (hle : s.returned.length ≤ s.accepted.length)
    (haccepted : s'.accepted = s.accepted ++ [data]) (hreturned : s'.returned = s.returned)
    (hread : s'.unreadAtHead = s.unreadAtHead) : GetOk Size s' pc := by
  have hunread : s'.unread = s.unread + 1 := by
    unfold unread
    rw [haccepted, hreturned, List.length_append, List.length_singleton]
    omega
  have hseen : ∀ x, s.accepted[s.returned.length]? = some x →
      s'.accepted[s'.returned.length]? = some x := by
    intro x hx
    have hlt := (List.getElem?_eq_some_iff.mp hx).1
    rw [haccepted, hreturned, List.getElem?_append_left hlt]
    exact hx
  cases pc with
  | idle => trivial
  | compareTail head =>
    have ⟨hhead, hseen⟩ := hget
    refine ⟨by rw [hreturned, hread]; exact hhead, ?_⟩
    omega
  | compareHead tail =>
    show tail = s'.returned.length % Size
    rw [hreturned]
    exact hget
  | index =>
    show 0 < s'.unread
    omega
  | load i =>
    refine ⟨?_, by rw [hreturned]; exact hget.2⟩
    omega
  | next x => exact hseen x hget
  | release x tail => exact ⟨hseen x hget.1, by rw [hreturned]; exact hget.2⟩

theorem RingInv.publish (h : RingInv Size s) {data : UInt8} {nextHead : ℕ}
    (hpc : PutOk Size s (.publish data nextHead)) :
    RingInv Size { s with
      head := nextHead, accepted := s.accepted ++ [data], producer := .idle } := by
  have ⟨hnext, hroom, hstored⟩ := hpc
  have hlen := h.length_eq
  constructor
  · show nextHead = (s.accepted ++ [data]).length % Size
    rw [List.length_append, List.length_singleton, hnext]
  · exact h.tail
  · exact h.fifo.trans (List.prefix_append _ _)
  · show (s.accepted ++ [data]).length - s.returned.length < Size
    rw [List.length_append, List.length_singleton]
    omega
  · intro k x hk hx
    change (s.accepted ++ [data])[k]? = some x at hx
    rcases Nat.lt_or_ge k s.accepted.length with hlt | hge
    · rw [List.getElem?_append_left hlt] at hx
      exact h.contents k x hk hx
    · -- the byte that has just been stored
      rw [List.getElem?_append_right hge] at hx
      have hzero := (List.getElem?_eq_some_iff.mp hx).1
      rw [List.length_singleton] at hzero
      have hk : k = s.accepted.length := by omega
      subst hk
      rw [Nat.sub_self] at hx
      exact hstored.trans (Option.some.inj hx)
  · trivial
  · exact h.get.accept (by omega) rfl rfl rfl

theorem RingInv.producerStep (h : RingInv Size s) : RingInv Size s.producerStep := by
  have hput := h.put
  unfold UartRing.producerStep
  cases hpc : s.producer with
  | idle => exact h
  | compare data nextHead =>
    rw [hpc] at hput
    dsimp only
    split
    · exact h.withProducer trivial
    case isFalse hne =>
      refine h.withProducer ⟨hput, h.room_of_ne ?_⟩
      exact fun heq => hne (hput.trans heq)
  | index data nextHead =>
    rw [hpc] at hput
    exact h.withProducer ⟨hput.1, hput.2, h.head⟩
  | store data nextHead i =>
    rw [hpc] at hput
    exact h.store hput
  | publish data nextHead =>
    rw [hpc] at hput
    exact h.publish hput

/-! ## The consumer -/

/-- A `Get` that only moves on. -/
theorem RingInv.withConsumer (h : RingInv Size s) {pc : GetPc} {n : ℕ}
    (hpc : GetOk Size { s with unreadAtHead := n } pc) :
    RingInv Size { s with consumer := pc, unreadAtHead := n } := by
  constructor
  · exact h.head
  · exact h.tail
  · exact h.fifo
  · exact h.room
  · exact h.contents
  · have hput := h.put
    cases hp : s.producer <;> rw [hp] at hput <;> exact hput
  · cases pc <;> exact hpc

/-- What a `Put` has seen stays true when a byte is returned. -/
theorem PutOk.free {s s' : UartRing} {pc : PutPc} (hput : PutOk Size s pc)
    (haccepted : s'.accepted = s.accepted) (hbuffer : s'.buffer = s.buffer)
    (hunread : s'.unread ≤ s.unread) : PutOk Size s' pc := by
  cases pc with
  | idle => trivial
  | compare data nextHead => exact hput.trans (by rw [haccepted])
  | index data nextHead =>
    refine ⟨hput.1.trans (by rw [haccepted]), ?_⟩
    have hroom := hput.2
    omega
  | store data nextHead i =>
    refine ⟨hput.1.trans (by rw [haccepted]), ?_, hput.2.2.trans (by rw [haccepted])⟩
    have hroom := hput.2.1
    omega
  | publish data nextHead =>
    refine ⟨hput.1.trans (by rw [haccepted]), ?_, by rw [haccepted, hbuffer]; exact hput.2.2⟩
    have hroom := hput.2.1
    omega

theorem RingInv.release (h : RingInv Size s) {data : UInt8} {tail : ℕ}
    (hpc : GetOk Size s (.release data tail)) :
    RingInv Size { s with
      tail := (tail + 1) % Size, returned := s.returned ++ [data], consumer := .idle } := by
  have ⟨hseen, htail⟩ := hpc
  have ⟨hlt, hdata⟩ := List.getElem?_eq_some_iff.mp hseen
  have hlen := h.length_eq
  have hroom := h.room
  have hless : (s.accepted.length - (s.returned ++ [data]).length) ≤ s.unread := by
    rw [List.length_append, List.length_singleton]
    omega
  constructor
  · exact h.head
  · show (tail + 1) % Size = (s.returned ++ [data]).length % Size
    rw [List.length_append, List.length_singleton, htail, Nat.mod_add_mod]
  · -- the byte is the next one of those accepted
    show s.returned ++ [data] <+: s.accepted
    have htake := List.prefix_iff_eq_take.mp h.fifo
    rw [htake, ← hdata, List.take_append_getElem]
    exact List.take_prefix _ _
  · exact Nat.lt_of_le_of_lt hless hroom
  · intro k x hk hx
    change (s.returned ++ [data]).length ≤ k at hk
    rw [List.length_append, List.length_singleton] at hk
    exact h.contents k x (by omega) hx
  · exact h.put.free rfl rfl hless
  · trivial

theorem RingInv.consumerStep (h : RingInv Size s) : RingInv Size (s.consumerStep Size) := by
  have hget := h.get
  have hlen := h.length_eq
  unfold UartRing.consumerStep
  cases hpc : s.consumer with
  | idle => exact h
  | compareTail head =>
    rw [hpc] at hget
    have ⟨hhead, hle⟩ := hget
    dsimp only
    split
    · -- the buffer is empty
      exact h.withConsumer trivial
    case isFalse hne =>
      refine h.withConsumer (?_ : 0 < s.unread)
      by_contra hnone
      apply hne
      rw [hhead, h.tail, show s.unreadAtHead = 0 by omega, Nat.add_zero]
  | compareHead tail =>
    rw [hpc] at hget
    dsimp only
    split
    · exact h.withConsumer trivial
    case isFalse hne =>
      refine h.withConsumer (?_ : 0 < s.unread)
      by_contra hnone
      apply hne
      rw [h.head, hlen, show s.unread = 0 by omega, Nat.add_zero]
      exact hget.symm
  | index =>
    rw [hpc] at hget
    exact h.withConsumer ⟨hget, h.tail⟩
  | load i =>
    rw [hpc] at hget
    have ⟨hpos, hi⟩ := hget
    have hlt : s.returned.length < s.accepted.length := by omega
    have hnext := List.getElem?_eq_getElem hlt
    refine h.withConsumer (?_ : s.accepted[s.returned.length]? = some (s.buffer i))
    rw [hi, h.contents _ _ (Nat.le_refl _) hnext, hnext]
  | next data =>
    rw [hpc] at hget
    exact h.withConsumer ⟨hget, h.tail⟩
  | release data tail =>
    rw [hpc] at hget
    exact h.release hget

/-! ## Whole runs -/

theorem RingInv.step (h : RingInv Size s) {l : RingLabel} : RingInv Size (update Size l s) := by
  cases l with
  | put data => exact h.withProducer (congrArg (fun n => (n + 1) % Size) h.head |>.trans (by simp))
  | producer => exact h.producerStep
  | getHead =>
    refine h.withConsumer ⟨?_, Nat.le_refl _⟩
    rw [h.head, h.length_eq]
  | getTail => exact h.withConsumer h.tail
  | consumer => exact h.consumerStep

theorem ring_of_reachable (hsize : 0 < Size) (hr : (uartRingLts Size).Reachable s) :
    RingInv Size s := by
  apply hr.induct
  · rintro s ⟨buffer, rfl⟩
    exact RingInv.initial hsize buffer
  · intro l s _ _ _ h
    exact h.step

/-- Between any two accesses: what was returned is a prefix of what was accepted, at most
`Size - 1` bytes are unread, a `Put` that fails reads the tail when exactly so many are
unread, and a `Get` that fails reads the head when none is. -/
theorem uart_ring_fifo (hsize : 2 ≤ Size) (hr : (uartRingLts Size).Reachable s) :
    s.returned <+: s.accepted ∧ s.unread ≤ Size - 1 ∧
      (s.putFails → s.unread = Size - 1) ∧ (s.getFails → s.unreadForGet = 0) := by
  have h := ring_of_reachable (by omega) hr
  have hroom := h.room
  have hlen := h.length_eq
  refine ⟨h.fifo, by omega, ?_, ?_⟩
  · rintro ⟨data, hpc⟩
    have hput := h.put
    rw [hpc, PutOk, h.tail] at hput
    by_contra hless
    have hsame := eq_of_mod_eq (by omega) (by omega) hput
    omega
  · have hget := h.get
    rintro (hpc | hpc)
    · -- the head that was read before is the position that was accepted then
      rw [hpc] at hget
      have ⟨hhead, hle⟩ := hget
      rw [h.tail] at hhead
      have hsame := eq_of_mod_eq (by omega) (by omega) hhead
      unfold unreadForGet
      rw [hpc]
      dsimp only
      omega
    · rw [hpc, GetOk, h.head] at hget
      have hsame := eq_of_mod_eq (by omega) (by omega) hget.symm
      unfold unreadForGet
      rw [hpc]
      dsimp only
      omega

/-- The second `Put` comes between the two reads of a `Get`, and finds the buffer full. -/
theorem uart_ring_fifo_run :
    ∃ s, (uartRingLts 2).Reachable s ∧ s.accepted = [7] ∧ s.unread = 2 - 1 := by
  obtain ⟨s, hr, hp⟩ := (uartRingLts 2).execWhen_reachable Lts.always ⟨fun _ => 0, rfl⟩
    [.put 7, .producer, .producer, .producer, .getHead, .producer, .put 8]
    (fun s => s.accepted = [7] ∧ s.producer = .compare 8 s.tail) (by decide +kernel)
  obtain ⟨haccepted, hpc⟩ : _ ∧ _ := of_decide_eq_true hp
  exact ⟨s, hr, haccepted, (uart_ring_fifo (by decide) hr).2.2.1 ⟨8, hpc⟩⟩

end UartRing

end AsyncSqlite
