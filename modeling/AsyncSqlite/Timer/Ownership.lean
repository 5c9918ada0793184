import AsyncSqlite.Timer.Delegate

/-!
# AsyncSqlite.Timer.Ownership — who holds a tick and its token

`Ledger` ties the owners of the messages of `operator()`, and of the tokens in
their arguments, to the places where the target thread has the messages. Every
event in the thread keeps it: what a message or a token is copied from exists,
and what lets go of it was its owner.
-/

namespace AsyncSqlite

namespace PacedSys

variable {s s' : PacedSys} {t t' : ThreadState}

/-! ## Owners -/

/-- The owners of the messages of `operator()`, from where the thread has them. -/
structure Ledger (s : PacedSys) (t : ThreadState) : Prop where
  fresh : ∀ i, s.source i = none → s.msg.expired i ∧ s.token.expired i
  threadMsg : ∀ i, .threadMsg ∈ s.msg i ↔
    s.source i ≠ none ∧ (tickMsg i ∈ t.pending ∨ tickMsg i ∈ t.running ∨ i ∈ s.thrown)
  handler : ∀ i, .handler ∈ s.msg i ↔
    s.source i ≠ none ∧ (tickMsg i ∈ t.running ∨ i ∈ s.thrown)
  thrown : ∀ i ∈ s.thrown, s.source i ≠ none ∧ tickMsg i ∈ t.invoked ∧ tickMsg i ∉ t.running
  tokenMessage : ∀ i, .message ∈ s.token i ↔ ¬ s.msg.expired i
  tokenHandler : ∀ i, .handler ∈ s.token i → .handler ∈ s.msg i

/-- The message of an event is one that `operator()` could have made. -/
def Genuine (s : PacedSys) (x : DelegateMsg) : Prop := s.source x.id ≠ none → x = tickMsg x.id

theorem Genuine.eq_iff {x : DelegateMsg} (hx : s.Genuine x) {i : ℕ} (hi : s.source i ≠ none) :
    tickMsg i = x ↔ i = x.id := by
  constructor
  · rintro rfl
    rfl
  · rintro rfl
    exact (hx hi).symm

/-- A pending message is not invoked, and a running one is. -/
structure Apart (t : ThreadState) : Prop where
  pending : ∀ i, tickMsg i ∈ t.pending → tickMsg i ∉ t.invoked
  running : ∀ i, tickMsg i ∈ t.running → tickMsg i ∈ t.invoked

theorem Apart.of_sound (hs : t.Sound) : Apart t := by
  constructor
  · intro i hi
    exact ((ThreadState.mem_pending hs.history rfl).mp hi).2.1
  · intro i hi
    obtain ⟨w, hw⟩ := (ThreadState.mem_running hs.life.workers).mp hi
    exact hs.handler.mem w (tickMsg i) hw

namespace Ledger

/-- A message in the thread's hands is not one whose handler threw. -/
theorem not_thrown (h : Ledger s t) (ha : Apart t) {i : ℕ}
    (hi : tickMsg i ∈ t.pending ∨ tickMsg i ∈ t.running) : i ∉ s.thrown := by
  intro hmem
  obtain ⟨-, hinv, hrun⟩ := h.thrown i hmem
  rcases hi with hi | hi
  · exact ha.pending i hi hinv
  · exact hrun hi

theorem source_of_msg (h : Ledger s t) {i : ℕ} {w : MsgOwner} (hw : w ∈ s.msg i) :
    s.source i ≠ none := by
  intro hnone
  exact Owners.expired_iff.mp (h.fresh i hnone).1 w hw

/-- Letting go keeps the message's claim on its token. -/
theorem letGo_tokenMessage (h : ∀ i, .message ∈ s.token i ↔ ¬ s.msg.expired i) (is : List ℕ)
    (w : MsgOwner) (i : ℕ) :
    .message ∈ (s.letGo is w).token i ↔ ¬ (s.letGo is w).msg.expired i := by
  show _ ∈ s.token.release _ _ i ↔ ¬ (s.msg.release is w).expired i
  rw [Owners.mem_release, h i]
  have hgone : s.msg.expired i → (s.msg.release is w).expired i := Owners.expired_release
  by_cases hi : i ∈ is
  · simp only [List.mem_filter, hi, decide_eq_true_eq, true_and, and_true]
    tauto
  · have hsame : (s.msg.release is w).expired i ↔ s.msg.expired i := by
      simp [Owners.release, Owners.expired, hi]
    rw [hsame]
    simp [hi]

/-- Only the owners and the source of a message count. -/
theorem congr (h : Ledger s t) (hsrc : s'.source = s.source) (hmsg : s'.msg = s.msg)
    (htok : s'.token = s.token) (hth : s'.thrown = s.thrown) : Ledger s' t := by
  obtain ⟨h₁, h₂, h₃, h₄, h₅, h₆⟩ := h
  constructor
  · rw [hsrc, hmsg, htok]
    exact h₁
  · rw [hsrc, hmsg, hth]
    exact h₂
  · rw [hsrc, hmsg, hth]
    exact h₃
  · rw [hsrc, hth]
    exact h₄
  · rw [hmsg, htok]
    exact h₅
  · rw [hmsg, htok]
    exact h₆

/-- `operator()` makes a message with a number that is new to the thread. -/
theorem create (h : Ledger s t) {i k : ℕ} (hnew : s.source i = none)
    (hpend : tickMsg i ∉ t.pending) (hrun : tickMsg i ∉ t.running)
    (hsrc : s'.source = Function.update s.source i (some k))
    (hmsg : s'.msg = s.msg.create i .call) (htok : s'.token = s.token.create i .message)
    (hth : s'.thrown = s.thrown) : Ledger s' t := by
  -- the new message has one owner, the call, and no trace in the thread
  have hthrown : i ∉ s.thrown := fun hmem => (h.thrown i hmem).1 hnew
  have hsource : ∀ j, s'.source j ≠ none ↔ j = i ∨ s.source j ≠ none := by
    intro j
    rw [hsrc]
    by_cases hj : j = i
    · subst hj
      simp
    · simp [hj]
  constructor
  · intro j hj
    have hold : ¬ (j = i ∨ s.source j ≠ none) := fun hor => (hsource j).mpr hor hj
    rw [not_or, not_not] at hold
    rw [hmsg, htok]
    simp only [Owners.expired, Owners.create, Function.update_of_ne hold.1]
    exact h.fresh j hold.2
  · intro j
    rw [hsource, hmsg, hth, Owners.mem_create, h.threadMsg j]
    by_cases hj : j = i
    · subst hj
      simp [hpend, hrun, hthrown]
    · simp [hj]
  · intro j
    rw [hsource, hmsg, hth, Owners.mem_create, h.handler j]
    by_cases hj : j = i
    · subst hj
      simp [hrun, hthrown]
    · simp [hj]
  · intro j hj
    rw [hth] at hj
    obtain ⟨hsj, hrest⟩ := h.thrown j hj
    exact ⟨(hsource j).mpr (Or.inr hsj), hrest⟩
  · intro j
    rw [htok, hmsg, Owners.not_expired_iff, Owners.mem_create, h.tokenMessage j,
      Owners.not_expired_iff]
    by_cases hj : j = i
    · subst hj
      simp [Owners.mem_create]
    · simp [Owners.mem_create, hj]
  · intro j hj
    rw [htok] at hj
    rw [hmsg]
    rcases Owners.mem_create.mp hj with ⟨-, hw⟩ | ⟨hne, hw⟩
    · cases hw
    · exact Owners.mem_create.mpr (Or.inr ⟨hne, h.tokenHandler j hw⟩)

/-- `operator()` lets go of its message. -/
theorem letGo_call (h : Ledger s t) (i : ℕ) : Ledger (s.letGo [i] .call) t := by
  have hmem : ∀ w j, w ∈ (s.letGo [i] .call).msg j ↔ w ∈ s.msg j ∧ ¬ (j ∈ [i] ∧ w = .call) :=
    fun w j => Owners.mem_release
  constructor
  · intro j hj
    exact ⟨Owners.expired_release (h.fresh j hj).1, Owners.expired_release (h.fresh j hj).2⟩
  · intro j
    rw [hmem, h.threadMsg j]
    simp [letGo]
  · intro j
    rw [hmem, h.handler j]
    simp [letGo]
  · exact h.thrown
  · exact letGo_tokenMessage h.tokenMessage _ _
  · intro j hj
    refine (hmem _ j).mpr ⟨h.tokenHandler j (Owners.mem_release.mp hj).1, ?_⟩
    simp

/-- The ledger without an event, in a thread that has its messages in the same
places. -/
theorem quiet (h : Ledger s t) (hmono : ∀ m ∈ t.invoked, m ∈ t'.invoked)
    (hp : ∀ i, tickMsg i ∈ t'.pending ↔ tickMsg i ∈ t.pending)
    (hr : ∀ i, tickMsg i ∈ t'.running ↔ tickMsg i ∈ t.running) : Ledger s t' := by
  constructor
  · exact h.fresh
  · intro i
    rw [hp i, hr i]
    exact h.threadMsg i
  · intro i
    rw [hr i]
    exact h.handler i
  · intro i hi
    obtain ⟨hsrc, hinv, hrun⟩ := h.thrown i hi
    rw [hr i]
    exact ⟨hsrc, hmono _ hinv, hrun⟩
  · exact h.tokenMessage
  · exact h.tokenHandler

/-- The call shares its message with the queue entry. -/
theorem post (h : Ledger s t) {x : DelegateMsg} (hx : s.Genuine x)
    (hcall : s.source x.id ≠ none → .call ∈ s.msg x.id)
    (hmono : ∀ m ∈ t.invoked, m ∈ t'.invoked)
    (hp : ∀ i, tickMsg i ∈ t'.pending ↔ tickMsg i ∈ t.pending ∨ tickMsg i = x)
    (hr : ∀ i, tickMsg i ∈ t'.running ↔ tickMsg i ∈ t.running) :
    Ledger (s.apply (.post x)) t' := by
  constructor
  · intro i hi
    exact ⟨Owners.expired_copy.mpr (h.fresh i hi).1, (h.fresh i hi).2⟩
  · intro i
    show _ ∈ s.msg.copy x.id .call .threadMsg i ↔ s.source i ≠ none ∧ (_ ∨ _ ∨ i ∈ s.thrown)
    rw [Owners.mem_copy, h.threadMsg i, hp i, hr i]
    constructor
    · rintro (⟨hsrc, hat⟩ | ⟨rfl, -, hc⟩)
      · exact ⟨hsrc, by tauto⟩
      · have hsrc := h.source_of_msg hc
        exact ⟨hsrc, Or.inl (Or.inr ((hx.eq_iff hsrc).mpr rfl))⟩
    · rintro ⟨hsrc, (hat | heq) | hat⟩
      · exact Or.inl ⟨hsrc, Or.inl hat⟩
      · have hi := (hx.eq_iff hsrc).mp heq
        subst hi
        exact Or.inr ⟨rfl, rfl, hcall hsrc⟩
      · exact Or.inl ⟨hsrc, Or.inr hat⟩
  · intro i
    show _ ∈ s.msg.copy x.id .call .threadMsg i ↔ s.source i ≠ none ∧ (_ ∨ i ∈ s.thrown)
    rw [Owners.mem_copy, h.handler i, hr i]
    simp
  · intro i hi
    obtain ⟨hsrc, hinv, hrun⟩ := h.thrown i hi
    rw [hr i]
    exact ⟨hsrc, hmono _ hinv, hrun⟩
  · intro i
    show _ ∈ s.token i ↔ ¬ (s.msg.copy x.id .call .threadMsg).expired i
    rw [Owners.expired_copy]
    exact h.tokenMessage i
  · intro i hi
    exact Owners.mem_copy.mpr (Or.inl (h.tokenHandler i hi))

/-- `Invoke` copies what the entry holds. -/
theorem enter (h : Ledger s t) (ha : Apart t) {x : DelegateMsg} (hx : s.Genuine x)
    (hpend : x ∈ t.pending) (hmono : ∀ m ∈ t.invoked, m ∈ t'.invoked)
    (hp : ∀ i, tickMsg i ∈ t'.pending ↔ tickMsg i ∈ t.pending ∧ tickMsg i ≠ x)
    (hr : ∀ i, tickMsg i ∈ t'.running ↔ tickMsg i ∈ t.running ∨ tickMsg i = x) :
    Ledger (s.apply (.enter x)) t' := by
  have hown : s.source x.id ≠ none → tickMsg x.id ∈ t.pending := by
    intro hsrc
    rw [← hx hsrc]
    exact hpend
  constructor
  · intro i hi
    exact ⟨Owners.expired_copy.mpr (h.fresh i hi).1, Owners.expired_copy.mpr (h.fresh i hi).2⟩
  · intro i
    show _ ∈ s.msg.copy x.id .threadMsg .handler i ↔ s.source i ≠ none ∧ (_ ∨ _ ∨ i ∈ s.thrown)
    rw [Owners.mem_copy, h.threadMsg i, hp i, hr i]
    simp only [reduceCtorEq, false_and, and_false, or_false]
    -- the message only goes from the pending to the running ones
    constructor
    · rintro ⟨hsrc, hat⟩
      exact ⟨hsrc, by tauto⟩
    · rintro ⟨hsrc, ⟨hat, -⟩ | (hat | heq) | hat⟩
      · exact ⟨hsrc, Or.inl hat⟩
      · exact ⟨hsrc, Or.inr (Or.inl hat)⟩
      · exact ⟨hsrc, Or.inl (heq ▸ hpend)⟩
      · exact ⟨hsrc, Or.inr (Or.inr hat)⟩
  · intro i
    show _ ∈ s.msg.copy x.id .threadMsg .handler i ↔ s.source i ≠ none ∧ (_ ∨ i ∈ s.thrown)
    rw [Owners.mem_copy, h.handler i, hr i]
    constructor
    · rintro (⟨hsrc, hat⟩ | ⟨rfl, -, hc⟩)
      · exact ⟨hsrc, by tauto⟩
      · have hsrc := h.source_of_msg hc
        exact ⟨hsrc, Or.inl (Or.inr ((hx.eq_iff hsrc).mpr rfl))⟩
    · rintro ⟨hsrc, (hat | heq) | hat⟩
      · exact Or.inl ⟨hsrc, Or.inl hat⟩
      · have hi := (hx.eq_iff hsrc).mp heq
        subst hi
        exact Or.inr ⟨rfl, rfl, (h.threadMsg _).mpr ⟨hsrc, Or.inl (hown hsrc)⟩⟩
      · exact Or.inl ⟨hsrc, Or.inr hat⟩
  · intro i hi
    obtain ⟨hsrc, hinv, hrun⟩ := h.thrown i hi
    refine ⟨hsrc, hmono _ hinv, ?_⟩
    rw [hr i]
    rintro (hat | heq)
    · exact hrun hat
    · exact ha.pending i (heq ▸ hpend) hinv
  · intro i
    show _ ∈ s.token.copy x.id .message .handler i ↔
      ¬ (s.msg.copy x.id .threadMsg .handler).expired i
    rw [Owners.expired_copy, Owners.mem_copy, h.tokenMessage i]
    simp
  · intro i hi
    show _ ∈ s.msg.copy x.id .threadMsg .handler i
    rcases Owners.mem_copy.mp hi with hi | ⟨rfl, -, hc⟩
    · exact Owners.mem_copy.mpr (Or.inl (h.tokenHandler i hi))
    · have hsrc : s.source x.id ≠ none := by
        intro hnone
        exact Owners.expired_iff.mp (h.fresh _ hnone).2 _ hc
      exact Owners.mem_copy.mpr
        (Or.inr ⟨rfl, rfl, (h.threadMsg _).mpr ⟨hsrc, Or.inl (hown hsrc)⟩⟩)

/-- The handler is through with its message, and so is the entry. -/
theorem leave (h : Ledger s t) (ha : Apart t) {x : DelegateMsg} (hx : s.Genuine x)
    (hrun : x ∈ t.running) (hmono : ∀ m ∈ t.invoked, m ∈ t'.invoked)
    (hp : ∀ i, tickMsg i ∈ t'.pending ↔ tickMsg i ∈ t.pending)
    (hr : ∀ i, tickMsg i ∈ t'.running ↔ tickMsg i ∈ t.running ∧ tickMsg i ≠ x) :
    Ledger (s.apply (.leave x)) t' := by
  have hmem : ∀ w i, w ∈ (s.apply (.leave x)).msg i ↔
      w ∈ s.msg i ∧ ¬ (i = x.id ∧ (w = .handler ∨ w = .threadMsg)) := by
    intro w i
    show w ∈ (s.msg.release [x.id] .handler).release [x.id] .threadMsg i ↔ _
    rw [Owners.mem_release, Owners.mem_release, List.mem_singleton]
    tauto
  have hne : ∀ i, s.source i ≠ none → (tickMsg i ≠ x ↔ i ≠ x.id) :=
    fun i hsrc => not_congr (hx.eq_iff hsrc)
  -- it was running, so it is neither pending nor kept by a handler that threw
  have hstay : ∀ i, s.source i ≠ none → tickMsg i ∈ t.pending ∨ i ∈ s.thrown → i ≠ x.id := by
    rintro i hsrc hat rfl
    rw [hx hsrc] at hrun
    rcases hat with hat | hat
    · exact ha.pending _ hat (ha.running _ hrun)
    · exact h.not_thrown ha (Or.inr hrun) hat
  constructor
  · intro i hi
    obtain ⟨hm, ht⟩ := h.fresh i hi
    exact ⟨Owners.expired_release (Owners.expired_release hm),
      Owners.expired_release (Owners.expired_release (Owners.expired_release ht))⟩
  · intro i
    rw [hmem, h.threadMsg i, hp i, hr i]
    show _ ↔ s.source i ≠ none ∧ (_ ∨ _ ∨ i ∈ s.thrown)
    constructor
    · rintro ⟨⟨hsrc, hat⟩, hkept⟩
      have hi : i ≠ x.id := fun heq => hkept ⟨heq, Or.inr rfl⟩
      exact ⟨hsrc, hat.imp_right (Or.imp_left fun hat => ⟨hat, (hne i hsrc).mpr hi⟩)⟩
    · rintro ⟨hsrc, hat⟩
      have hi : i ≠ x.id := by
        rcases hat with hat | ⟨-, hat⟩ | hat
        · exact hstay i hsrc (Or.inl hat)
        · exact (hne i hsrc).mp hat
        · exact hstay i hsrc (Or.inr hat)
      exact ⟨⟨hsrc, hat.imp_right (Or.imp_left And.left)⟩, fun hgone => hi hgone.1⟩
  · intro i
    rw [hmem, h.handler i, hr i]
    show _ ↔ s.source i ≠ none ∧ (_ ∨ i ∈ s.thrown)
    constructor
    · rintro ⟨⟨hsrc, hat⟩, hkept⟩
      have hi : i ≠ x.id := fun heq => hkept ⟨heq, Or.inl rfl⟩
      exact ⟨hsrc, hat.imp_left fun hat => ⟨hat, (hne i hsrc).mpr hi⟩⟩
    · rintro ⟨hsrc, hat⟩
      have hi : i ≠ x.id := by
        rcases hat with ⟨-, hat⟩ | hat
        · exact (hne i hsrc).mp hat
        · exact hstay i hsrc (Or.inr hat)
      exact ⟨⟨hsrc, hat.imp_left And.left⟩, fun hgone => hi hgone.1⟩
  · intro i hi
    obtain ⟨hsrc, hinv, hnrun⟩ := h.thrown i hi
    refine ⟨hsrc, hmono _ hinv, ?_⟩
    rw [hr i]
    exact fun hat => hnrun hat.1
  · refine letGo_tokenMessage (letGo_tokenMessage ?_ _ _) _ _
    intro i
    show _ ∈ s.token.release [x.id] .handler i ↔ ¬ s.msg.expired i
    rw [Owners.mem_release, h.tokenMessage i]
    simp
  · intro i hi
    have hold : .handler ∈ s.token i ∧ ¬ (i ∈ [x.id] ∧ TokenOwner.handler = .handler) :=
      Owners.mem_release.mp (Owners.mem_release.mp (Owners.mem_release.mp hi).1).1
    refine (hmem _ i).mpr ⟨h.tokenHandler i hold.1, ?_⟩
    rintro ⟨rfl, -⟩
    exact hold.2 ⟨by simp, rfl⟩

/-- The handler threw: its arguments are gone, and `Process` keeps the rest. -/
theorem unwind (h : Ledger s t) (ha : Apart t) {x : DelegateMsg} (hx : s.Genuine x)
    (hrun : x ∈ t.running) (hmono : ∀ m ∈ t.invoked, m ∈ t'.invoked)
    (hp : ∀ i, tickMsg i ∈ t'.pending ↔ tickMsg i ∈ t.pending)
    (hr : ∀ i, tickMsg i ∈ t'.running ↔ tickMsg i ∈ t.running ∧ tickMsg i ≠ x) :
    Ledger (s.apply (.unwind x)) t' := by
  have hthrown : ∀ i, s.source i ≠ none →
      (i ∈ (s.apply (.unwind x)).thrown ↔ i = x.id ∨ i ∈ s.thrown) := by
    intro i hsrc
    simp only [apply]
    by_cases hs : (s.source x.id).isSome = true
    · rw [if_pos hs]
      simp
    · rw [if_neg hs]
      constructor
      · exact Or.inr
      · rintro (rfl | hi)
        · exact absurd (Option.isSome_iff_ne_none.mpr hsrc) hs
        · exact hi
  have hself : s.source x.id ≠ none → tickMsg x.id ∈ t.running := by
    intro hsrc
    rw [← hx hsrc]
    exact hrun
  -- the message goes from the running ones to those whose handler threw
  have hmoved : ∀ i, s.source i ≠ none →
      (tickMsg i ∈ t.running ∧ tickMsg i ≠ x ∨ i ∈ (s.apply (.unwind x)).thrown ↔
        tickMsg i ∈ t.running ∨ i ∈ s.thrown) := by
    intro i hsrc
    rw [hthrown i hsrc]
    by_cases hi : i = x.id
    · subst hi
      simp [hself hsrc]
    · have hne : tickMsg i ≠ x := fun heq => hi ((hx.eq_iff hsrc).mp heq)
      simp [hi, hne]
  constructor
  · intro i hi
    exact ⟨(h.fresh i hi).1, Owners.expired_release (h.fresh i hi).2⟩
  · intro i
    show _ ∈ s.msg i ↔ s.source i ≠ none ∧ _
    rw [h.threadMsg i, hp i, hr i]
    exact and_congr_right fun hsrc => or_congr_right (hmoved i hsrc).symm
  · intro i
    show _ ∈ s.msg i ↔ s.source i ≠ none ∧ _
    rw [h.handler i, hr i]
    exact and_congr_right fun hsrc => (hmoved i hsrc).symm
  · intro i hi
    have hsrc : s.source i ≠ none := by
      simp only [apply] at hi
      split at hi
      · rename_i hs
        rcases List.mem_cons.mp hi with rfl | hi
        · exact Option.isSome_iff_ne_none.mp hs
        · exact (h.thrown i hi).1
      · exact (h.thrown i hi).1
    refine ⟨hsrc, ?_⟩
    rw [hr i]
    rcases (hthrown i hsrc).mp hi with rfl | hi
    · exact ⟨hmono _ (ha.running _ (hself hsrc)), fun hat => hat.2 ((hx.eq_iff hsrc).mpr rfl)⟩
    · obtain ⟨-, hinv, hnrun⟩ := h.thrown i hi
      exact ⟨hmono _ hinv, fun hat => hnrun hat.1⟩
  · intro i
    show _ ∈ s.token.release [x.id] .handler i ↔ ¬ s.msg.expired i
    rw [Owners.mem_release, h.tokenMessage i]
    simp
  · intro i hi
    exact h.tokenHandler i (Owners.mem_release.mp hi).1

/-- `ExitThread` destroys the entries. -/
theorem clear (h : Ledger s t) (ha : Apart t) {xs : List DelegateMsg}
    (hx : ∀ x ∈ xs, s.Genuine x) (hpend : ∀ x ∈ xs, x ∈ t.pending)
    (hmono : ∀ m ∈ t.invoked, m ∈ t'.invoked)
    (hp : ∀ i, tickMsg i ∈ t'.pending ↔ tickMsg i ∈ t.pending ∧ tickMsg i ∉ xs)
    (hr : ∀ i, tickMsg i ∈ t'.running ↔ tickMsg i ∈ t.running) :
    Ledger (s.apply (.clear xs)) t' := by
  have hids : ∀ i, s.source i ≠ none → (i ∈ xs.map (·.id) ↔ tickMsg i ∈ xs) := by
    intro i hsrc
    rw [List.mem_map]
    constructor
    · rintro ⟨x, hmem, rfl⟩
      rw [← hx x hmem hsrc]
      exact hmem
    · intro hmem
      exact ⟨tickMsg i, hmem, rfl⟩
  have hmem : ∀ w i, w ∈ (s.apply (.clear xs)).msg i ↔
      w ∈ s.msg i ∧ ¬ (i ∈ xs.map (·.id) ∧ w = .threadMsg) :=
    fun w i => Owners.mem_release
  constructor
  · intro i hi
    exact ⟨Owners.expired_release (h.fresh i hi).1, Owners.expired_release (h.fresh i hi).2⟩
  · intro i
    rw [hmem, h.threadMsg i, hp i, hr i]
    show _ ↔ s.source i ≠ none ∧ (_ ∨ _ ∨ i ∈ s.thrown)
    -- a queued message is not running, and no handler of it threw
    have hnrun : tickMsg i ∈ xs → tickMsg i ∉ t.running :=
      fun hq hat => ha.pending i (hpend _ hq) (ha.running i hat)
    have hnth : tickMsg i ∈ xs → i ∉ s.thrown := fun hq => h.not_thrown ha (Or.inl (hpend _ hq))
    constructor
    · rintro ⟨⟨hsrc, hat⟩, hkept⟩
      have hq : tickMsg i ∉ xs := fun hq => hkept ⟨(hids i hsrc).mpr hq, rfl⟩
      exact ⟨hsrc, hat.imp_left fun hat => ⟨hat, hq⟩⟩
    · rintro ⟨hsrc, hat⟩
      have hq : tickMsg i ∉ xs := by
        rcases hat with ⟨-, hq⟩ | hat | hat
        · exact hq
        · exact fun hq => hnrun hq hat
        · exact fun hq => hnth hq hat
      exact ⟨⟨hsrc, hat.imp_left And.left⟩, fun hgone => hq ((hids i hsrc).mp hgone.1)⟩
  · intro i
    rw [hmem, h.handler i, hr i]
    show _ ↔ s.source i ≠ none ∧ (_ ∨ i ∈ s.thrown)
    simp
  · intro i hi
    obtain ⟨hsrc, hinv, hnrun⟩ := h.thrown i hi
    rw [hr i]
    exact ⟨hsrc, hmono _ hinv, hnrun⟩
  · exact letGo_tokenMessage h.tokenMessage _ _
  · intro i hi
    refine (hmem _ i).mpr ⟨h.tokenHandler i (Owners.mem_release.mp hi).1, ?_⟩
    simp

end Ledger

end PacedSys

end AsyncSqlite
