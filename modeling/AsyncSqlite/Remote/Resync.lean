import AsyncSqlite.Remote.Uart
import Mathlib.Data.List.DropRight

/-!
# AsyncSqlite.Remote.Resync — a good frame behind noise

When repeated `Receive` calls of the two serial transports give back the first
good frame behind bytes that do not contain the marker, with its header and
payload and nothing behind it consumed (`resync_iff`).

* `SerialTransport` throws the byte behind a first marker byte away when it is
  not the second one, also when it is the first byte of the marker. The frame is
  lost when the noise ends in an odd number of first marker bytes.
* `Stm32UartTransport` takes eight bytes from every first marker byte on. The
  frame is lost when such eight bytes reach into it.

A frame whose beginning is gone cannot be given back from what is left of it:
that is a matter of counting bytes.
-/

namespace AsyncSqlite

/-! ## The first successful call -/

section FirstSuccess

variable {σ τ : Type}

/-- Repeated calls up to the first that returns 0. A call that waits for ever
returns nothing. -/
inductive FirstSuccess (receive : σ → Option (LineReceived × σ)) :
    σ → LineReceived → σ → Prop
  | now {s s' : σ} {r : LineReceived} (hcall : receive s = some (r, s')) (hcode : r.code = 0) :
    FirstSuccess receive s r s'
  | later {s s' s'' : σ} {q r : LineReceived} (hcall : receive s = some (q, s'))
    (hcode : q.code ≠ 0) (hnext : FirstSuccess receive s' r s'') : FirstSuccess receive s r s''

/-- The first call that returns 0 gives a header and a payload and leaves what is
behind them. -/
def GivesFirst (receive : σ → Option (LineReceived × σ)) (s : σ) (h : DmqHeader)
    (payload : List UInt8) (left : σ → Prop) : Prop :=
  ∃ r s', FirstSuccess receive s r s' ∧ r.header = some h ∧ r.payload = payload ∧ left s'

variable {receive : σ → Option (LineReceived × σ)} {s s' s'' : σ} {q r : LineReceived}

theorem firstSuccess_of_failed (hcall : receive s = some (q, s')) (hcode : q.code ≠ 0) :
    FirstSuccess receive s r s'' ↔ FirstSuccess receive s' r s'' := by
  constructor
  · intro h
    cases h with
    | now hcall' hcode' =>
      rw [hcall] at hcall'
      cases hcall'
      exact absurd hcode' hcode
    | later hcall' hcode' hnext =>
      rw [hcall] at hcall'
      cases hcall'
      exact hnext
  · exact .later hcall hcode

theorem firstSuccess_of_success (hcall : receive s = some (q, s')) (hcode : q.code = 0) :
    FirstSuccess receive s r s'' ↔ r = q ∧ s'' = s' := by
  constructor
  · intro h
    cases h with
    | now hcall' hcode' =>
      rw [hcall] at hcall'
      cases hcall'
      exact ⟨rfl, rfl⟩
    | later hcall' hcode' hnext =>
      rw [hcall] at hcall'
      cases hcall'
      exact absurd hcode hcode'
  · rintro ⟨rfl, rfl⟩
    exact .now hcall hcode

/-- Two states from which a call does the same. -/
theorem firstSuccess_congr {t : σ} (h : receive s = receive t) :
    FirstSuccess receive s r s' ↔ FirstSuccess receive t r s' := by
  constructor
  · intro hs
    cases hs with
    | now hcall hcode => exact .now (h ▸ hcall) hcode
    | later hcall hcode hnext => exact .later (h ▸ hcall) hcode hnext
  · intro ht
    cases ht with
    | now hcall hcode => exact .now (h ▸ hcall) hcode
    | later hcall hcode hnext => exact .later (h ▸ hcall) hcode hnext

/-- What every call takes, the calls up to the first success take. -/
theorem FirstSuccess.count (size : σ → ℕ) (bytes : ℕ)
    (hstep : ∀ s r s', receive s = some (r, s') →
      size s' ≤ size s ∧ (r.code = 0 → size s' + bytes + r.payload.length ≤ size s))
    (h : FirstSuccess receive s r s') : size s' + bytes + r.payload.length ≤ size s := by
  induction h with
  | now hcall hcode => exact (hstep _ _ _ hcall).2 hcode
  | later hcall hcode hnext ih => exact ih.trans (hstep _ _ _ hcall).1

/-- A view of the state that carries the calls along. -/
theorem firstSuccess_map {receive' : τ → Option (LineReceived × τ)} {f : σ → τ}
    (hcall : ∀ s, receive' (f s) = (receive s).map (Prod.map id f)) {s : σ} {r : LineReceived}
    {x : τ} : FirstSuccess receive' (f s) r x ↔ ∃ s', f s' = x ∧ FirstSuccess receive s r s' := by
  constructor
  · intro h
    generalize hy : f s = y at h
    induction h generalizing s with
    | now hcall' hcode =>
      subst hy
      rw [hcall] at hcall'
      obtain ⟨⟨q, s'⟩, hs', heq⟩ := Option.map_eq_some_iff.mp hcall'
      cases heq
      exact ⟨s', rfl, .now hs' hcode⟩
    | later hcall' hcode _ ih =>
      subst hy
      rw [hcall] at hcall'
      obtain ⟨⟨q, s'⟩, hs', heq⟩ := Option.map_eq_some_iff.mp hcall'
      cases heq
      obtain ⟨s'', hx, hnext⟩ := ih rfl
      exact ⟨s'', hx, .later hs' hcode hnext⟩
  · rintro ⟨s', rfl, h⟩
    induction h with
    | now hs hcode => exact .now (by rw [hcall, hs]; rfl) hcode
    | later hs hcode _ ih => exact .later (by rw [hcall, hs]; rfl) hcode ih

end FirstSuccess

/-! ## `SerialTransport` -/

namespace SerialTransport

variable {t : SerialTransport}

/-- The hunt one symbol further. -/
def huntNext (seen : Bool) (x : Option UInt8) : Bool := x == some 0xAA && !seen

/-- The calls from the middle of a hunt on. -/
def Continues (t : SerialTransport) (seen : Bool) (l : List (Option UInt8)) (r : LineReceived)
    (l' : List (Option UInt8)) : Prop :=
  if (t.hearFrom seen l).1.code = 0 then r = (t.hearFrom seen l).1 ∧ l' = (t.hearFrom seen l).2
  else FirstSuccess (fun l => some (t.hear l)) (t.hearFrom seen l).2 r l'

theorem continues_false (ht : t.Receiving) {l l' : List (Option UInt8)} {r : LineReceived} :
    t.Continues false l r l' ↔ FirstSuccess (fun l => some (t.hear l)) l r l' := by
  have hcall : (fun l => some (t.hear l)) l =
      some ((t.hearFrom false l).1, (t.hearFrom false l).2) := congrArg some (hear_eq ht l)
  unfold Continues
  by_cases hcode : (t.hearFrom false l).1.code = 0
  · rw [if_pos hcode, firstSuccess_of_success hcall hcode]
  · rw [if_neg hcode]
    exact (firstSuccess_of_failed hcall hcode).symm

/-- One symbol that does not complete the marker. -/
theorem continues_cons (ht : t.Receiving) {seen : Bool} {x : Option UInt8}
    (hx : seen = true → x ≠ some 0x55) {l l' : List (Option UInt8)} {r : LineReceived} :
    t.Continues seen (x :: l) r l' ↔ t.Continues (huntNext seen x) l r l' := by
  have hsame (h : hunt seen (x :: l) = hunt (huntNext seen x) l) :
      t.Continues seen (x :: l) r l' ↔ t.Continues (huntNext seen x) l r l' := by
    unfold Continues hearFrom
    rw [h]
  cases seen with
  | false =>
    cases x with
    | none =>
      -- the call fails, and the next one starts to hunt
      have hnext : huntNext false none = false := rfl
      rw [hnext, continues_false ht, continues_false ht]
      exact firstSuccess_of_failed (congrArg some (hear_none ht l)) (by decide)
    | some b =>
      apply hsame
      have hnext : huntNext false (some b) = (b == 0xAA) := by simp [huntNext]
      rw [hunt, hnext]
  | true =>
    apply hsame
    have hnext : huntNext true x = false := by simp [huntNext]
    rw [hnext]
    cases x with
    | none => rfl
    | some b =>
      have hb : b ≠ 0x55 := fun h => hx rfl (congrArg some h)
      rw [hunt, if_neg hb]

/-- Noise without the marker. -/
theorem continues_noise (ht : t.Receiving) {noise : List (Option UInt8)} {seen : Bool}
    (hnoise : ¬ [0xAA, 0x55] <:+: (if seen then [0xAA] else []) ++ noise.reduceOption)
    {l l' : List (Option UInt8)} {r : LineReceived} :
    t.Continues seen (noise ++ l) r l' ↔ t.Continues (noise.foldl huntNext seen) l r l' := by
  induction noise generalizing seen with
  | nil => exact Iff.rfl
  | cons x noise ih =>
    have hx : seen = true → x ≠ some 0x55 := by
      rintro rfl rfl
      rw [List.reduceOption_cons_of_some] at hnoise
      exact hnoise ⟨[], noise.reduceOption, rfl⟩
    -- a first marker byte that is still waited for is part of the noise
    have hsuffix : (if huntNext seen x then [0xAA] else []) ++ noise.reduceOption <:+
        (if seen then [0xAA] else []) ++ (x :: noise).reduceOption := by
      cases x with
      | none =>
        rw [List.reduceOption_cons_of_none]
        exact List.suffix_append _ _
      | some b =>
        rw [List.reduceOption_cons_of_some]
        by_cases hnext : huntNext seen (some b) = true
        · obtain ⟨rfl, rfl⟩ : b = 0xAA ∧ seen = false := by simpa [huntNext] using hnext
          exact List.suffix_rfl
        · rw [if_neg hnext]
          exact (List.suffix_cons b _).trans (List.suffix_append _ _)
    rw [List.cons_append, continues_cons ht hx, List.foldl_cons]
    exact ih fun hin => hnoise (hin.trans hsuffix.isInfix)

/-- How many first marker bytes the noise ends in, without silence between. -/
def trailing (noise : List (Option UInt8)) : ℕ :=
  (noise.rtakeWhile (· == some 0xAA)).length

theorem trailing_concat (noise : List (Option UInt8)) (x : Option UInt8) :
    trailing (noise ++ [x]) = if x = some 0xAA then trailing noise + 1 else 0 := by
  unfold trailing
  rw [List.rtakeWhile_concat]
  by_cases hx : x = some 0xAA
  · rw [if_pos hx, if_pos (beq_iff_eq.mpr hx), List.length_append]
    rfl
  · rw [if_neg hx, if_neg fun h => hx (beq_iff_eq.mp h)]
    rfl

/-- The hunt waits for the second marker byte behind an odd number of first
ones. -/
theorem foldl_huntNext (noise : List (Option UInt8)) :
    noise.foldl huntNext false = decide (trailing noise % 2 = 1) := by
  induction noise using List.reverseRecOn with
  | nil => rfl
  | append_singleton noise x ih =>
    rw [List.foldl_append, ih, List.foldl_cons, List.foldl_nil, huntNext, trailing_concat]
    by_cases hx : x = some 0xAA
    · rw [if_pos hx, beq_iff_eq.mpr hx, Bool.true_and]
      by_cases hodd : trailing noise % 2 = 1
      · rw [decide_eq_true hodd, decide_eq_false (by omega)]
        rfl
      · rw [decide_eq_false hodd, decide_eq_true (by omega)]
        rfl
    · rw [if_neg hx, beq_eq_false_iff_ne.mpr hx]
      rfl

/-- What is left of a frame without its first byte is too short to be it. -/
theorem not_firstSuccess_of_rest (ht : t.Receiving) {h : DmqHeader} {payload : List UInt8}
    {more : List (Option UInt8)} {r : LineReceived} (hpayload : r.payload = payload) :
    ¬ FirstSuccess (fun l => some (t.hear l)) ((frame h payload).tail.map some ++ more) r more := by
  intro hfirst
  have hcount := hfirst.count (fun l => l.reduceOption.length) 10 fun l q l' hcall => by
    have hhear : t.hearFrom false l = (q, l') := (hear_eq ht l).symm.trans (Option.some.inj hcall)
    have htakes := t.hearFrom_takes l
    rw [hhear] at htakes
    exact ⟨htakes.le, fun hcode => (htakes.success hcode).2⟩
  rw [List.reduceOption_append, Feed.reduceOption_map_some, List.length_append, hpayload] at hcount
  have hframe : (frame h payload).tail.length = 9 + payload.length := by
    simp [frame, DmqHeader.length_bytes, DmqHeader.headerSize, crcBytes]
    omega
  omega

/-- A good frame behind noise without the marker is given back first, exactly,
if and only if the noise ends in an even number of first marker bytes. -/
theorem givesFirst_iff (ht : t.Receiving) {noise more : List (Option UInt8)}
    (hnoise : ¬ [0xAA, 0x55] <:+: noise.reduceOption) {h : DmqHeader} {payload : List UInt8}
    (hfits : Fits h payload) {fd : Feed UInt8}
    (hfd : fd.symbols = noise ++ ((frame h payload).map some ++ more)) :
    GivesFirst (fun fd => some (t.receive fd)) fd h payload (fun fd => fd.symbols = more) ↔
      trailing noise % 2 = 0 := by
  have hstart : ¬ [0xAA, 0x55] <:+: (if false then [0xAA] else []) ++ noise.reduceOption := by
    simpa using hnoise
  have hsymbols {r : LineReceived} :
      (∃ fd', FirstSuccess (fun fd => some (t.receive fd)) fd r fd' ∧ fd'.symbols = more) ↔
        t.Continues (decide (trailing noise % 2 = 1)) ((frame h payload).map some ++ more) r
          more := by
    have hmap (fd : Feed UInt8) : some (t.hear fd.symbols) =
        (some (t.receive fd)).map (Prod.map id Feed.symbols) := congrArg some (t.receive_symbols fd)
    rw [← foldl_huntNext, ← continues_noise ht hstart, continues_false ht, ← hfd,
      firstSuccess_map hmap]
    simp only [and_comm]
  have hgives : GivesFirst (fun fd => some (t.receive fd)) fd h payload
      (fun fd => fd.symbols = more) ↔ ∃ r : LineReceived, r.header = some h ∧ r.payload = payload ∧
        t.Continues (decide (trailing noise % 2 = 1)) ((frame h payload).map some ++ more) r
          more := by
    simp only [← hsymbols, GivesFirst]
    constructor
    · rintro ⟨r, fd', hfirst, hheader, hpayload, hleft⟩
      exact ⟨r, hheader, hpayload, fd', hfirst, hleft⟩
    · rintro ⟨r, hheader, hpayload, fd', hfirst, hleft⟩
      exact ⟨r, fd', hfirst, hheader, hpayload, hleft⟩
  rw [hgives]
  rcases Nat.mod_two_eq_zero_or_one (trailing noise) with heven | hodd
  · have hlost : ¬ trailing noise % 2 = 1 := by omega
    have hframe := hearFrom_frame t hfits more
    have hcode : (t.accepted h payload).code = 0 := rfl
    rw [decide_eq_false hlost]
    refine iff_of_true ⟨t.accepted h payload, rfl, rfl, ?_⟩ heven
    unfold Continues
    rw [hframe, if_pos hcode]
    exact ⟨rfl, rfl⟩
  · rw [decide_eq_true hodd]
    refine iff_of_false ?_ (by omega)
    rintro ⟨r, -, hpayload, hcont⟩
    -- the first byte of the frame is read as the second of a marker
    have hbytes : (frame h payload).map some ++ more =
        some 0xAA :: ((frame h payload).tail.map some ++ more) := by
      rw [frame, bytes_of_marker hfits.marker]
      rfl
    rw [hbytes, continues_cons ht fun _ => by decide] at hcont
    exact not_firstSuccess_of_rest ht hpayload ((continues_false ht).mp hcont)

end SerialTransport

/-! ## `Stm32UartTransport` -/

namespace Stm32UartTransport

open SerialTransport (Fits frame)

variable {t : Stm32UartTransport}

/-- Eight bytes are taken from each first marker byte on; does this end with the
noise? -/
def EndsWith : List UInt8 → Bool
  | [] => true
  | b :: noise =>
    if b = 0xAA then
      match noise with
      | _ :: _ :: _ :: _ :: _ :: _ :: _ :: noise => EndsWith noise
      | _ => false
    else EndsWith noise

theorem not_infix_tail {b : UInt8} {l : List UInt8} (h : ¬ [0xAA, 0x55] <:+: b :: l) :
    ¬ [0xAA, 0x55] <:+: l :=
  fun hin => h (hin.trans (List.suffix_cons b l).isInfix)

theorem endsWith_cons_eq (noise : List UInt8) :
    EndsWith (0xAA :: noise) = (decide (7 ≤ noise.length) && EndsWith (noise.drop 7)) := by
  rcases noise with _ | ⟨_, _ | ⟨_, _ | ⟨_, _ | ⟨_, _ | ⟨_, _ | ⟨_, _ | ⟨_, noise⟩⟩⟩⟩⟩⟩⟩ <;>
    simp [EndsWith]

theorem endsWith_cons_ne {b : UInt8} (hb : b ≠ 0xAA) (noise : List UInt8) :
    EndsWith (b :: noise) = EndsWith noise := by
  rcases noise with _ | ⟨_, _ | ⟨_, _ | ⟨_, _ | ⟨_, _ | ⟨_, _ | ⟨_, _ | ⟨_, noise⟩⟩⟩⟩⟩⟩⟩ <;>
    simp [EndsWith, hb]

/-- Eight bytes from a first marker byte on whose second byte is not the marker's
are dropped. -/
theorem firstSuccess_header (ht : t.recvTransport = .self) {l l' : List UInt8}
    (hlen : 7 ≤ l.length) (hsecond : l.head? ≠ some 0x55) {r : LineReceived} :
    FirstSuccess t.receive (0xAA :: l) r l' ↔ FirstSuccess t.receive (l.drop 7) r l' := by
  cases l with
  | nil => exact absurd hlen (by decide)
  | cons x l =>
    have hx : x ≠ 0x55 := fun h => hsecond (congrArg some h)
    have hrest : (x :: l.take 6).length = 7 := by
      rw [List.length_cons] at hlen ⊢
      rw [List.length_take]
      omega
    obtain ⟨q, hcall, hcode⟩ := t.receiveFrame_of_ne hx hrest (l.drop 6)
    rw [List.cons_append, List.take_append_drop, ← receive_cons_eq ht] at hcall
    exact firstSuccess_of_failed hcall hcode

theorem length_frame (h : DmqHeader) (payload : List UInt8) :
    (frame h payload).length = 10 + payload.length := by
  simp [frame, DmqHeader.length_bytes, DmqHeader.headerSize, SerialTransport.crcBytes]
  omega

/-- What is left of a frame without its first bytes is too short to be it. -/
theorem not_firstSuccess_of_rest {h : DmqHeader} {payload more : List UInt8} {r : LineReceived}
    (hpayload : r.payload = payload) {n : ℕ} (hn : 0 < n) :
    ¬ FirstSuccess t.receive ((frame h payload).drop n ++ more) r more := by
  intro hfirst
  have hcount := hfirst.count List.length 10 fun l q l' hcall =>
    ⟨(receive_takes hcall).le, (receive_takes hcall).success⟩
  rw [List.length_append, List.length_drop, length_frame, hpayload] at hcount
  omega

/-- The noise is passed over byte by byte or dropped eight bytes at a time. -/
theorem firstSuccess_noise (ht : t.recvTransport = .self) {h : DmqHeader}
    {payload more : List UInt8} (hfits : Fits h payload) {r : LineReceived}
    (hpayload : r.payload = payload) {noise : List UInt8} (hnoise : ¬ [0xAA, 0x55] <:+: noise) :
    FirstSuccess t.receive (noise ++ (frame h payload ++ more)) r more ↔
      EndsWith noise = true ∧ FirstSuccess t.receive (frame h payload ++ more) r more := by
  induction hn : noise.length using Nat.strong_induction_on generalizing noise with
  | _ n ih =>
    cases noise with
    | nil => exact ⟨fun h => ⟨rfl, h⟩, fun h => h.2⟩
    | cons b noise =>
      have htail := not_infix_tail hnoise
      rw [List.length_cons] at hn
      by_cases hb : b = 0xAA
      · subst hb
        have hlen := length_frame h payload
        have hseven : 7 ≤ (noise ++ (frame h payload ++ more)).length := by
          simp only [List.length_append]
          omega
        have hsecond : (noise ++ (frame h payload ++ more)).head? ≠ some 0x55 := by
          cases noise with
          | nil =>
            rw [frame, SerialTransport.bytes_of_marker hfits.marker]
            exact fun h => absurd (Option.some.inj h) (by decide)
          | cons x noise =>
            intro hx
            rw [List.cons_append, List.head?_cons] at hx
            cases hx
            exact hnoise ⟨[], noise, rfl⟩
        rw [List.cons_append, firstSuccess_header ht hseven hsecond, endsWith_cons_eq,
          Bool.and_eq_true, decide_eq_true_iff]
        by_cases hin : 7 ≤ noise.length
        · rw [List.drop_append_of_le_length hin,
            ih (noise.drop 7).length (by rw [List.length_drop]; omega)
              (fun h => htail (h.trans (List.drop_suffix 7 noise).isInfix)) rfl]
          exact ⟨fun h => ⟨⟨hin, h.1⟩, h.2⟩, fun h => ⟨h.1.2, h.2⟩⟩
        · -- the header takes the beginning of the frame with it
          have hdrop : (noise ++ (frame h payload ++ more)).drop 7 =
              (frame h payload).drop (7 - noise.length) ++ more := by
            rw [List.drop_append, List.drop_eq_nil_of_le (by omega), List.nil_append,
              List.drop_append_of_le_length (by omega)]
          rw [hdrop]
          exact iff_of_false (not_firstSuccess_of_rest hpayload (by omega)) fun h => hin h.1.1
      · rw [List.cons_append, firstSuccess_congr (receive_cons_ne ht hb _),
          ih noise.length (by omega) htail rfl, endsWith_cons_ne hb]

/-- A good frame behind noise without the marker is given back first, exactly,
if and only if taking eight bytes from each first marker byte on ends with the
noise. -/
theorem givesFirst_iff (ht : t.recvTransport = .self) {noise more : List UInt8}
    (hnoise : ¬ [0xAA, 0x55] <:+: noise) {h : DmqHeader} {payload : List UInt8}
    (hfits : Fits h payload) (hbuf : payload.length ≤ bufferSize) :
    GivesFirst t.receive (noise ++ (frame h payload ++ more)) h payload (· = more) ↔
      EndsWith noise = true := by
  constructor
  · rintro ⟨r, l', hfirst, -, hpayload, rfl⟩
    exact ((firstSuccess_noise ht hfits hpayload hnoise).mp hfirst).1
  · intro hend
    have hframe := receive_frame ht hfits.marker hfits.length hbuf more
    have hpayload : (t.accepted h payload).payload = payload := rfl
    exact ⟨t.accepted h payload, more,
      (firstSuccess_noise ht hfits hpayload hnoise).mpr ⟨hend, .now hframe rfl⟩, rfl, rfl, rfl⟩

end Stm32UartTransport

/-! ## Both transports -/

/-- Behind noise that does not contain the marker, repeated calls give back the
first good frame and consume nothing beyond it: over a serial port if and only
if the noise ends in an even number of first marker bytes, over the UART if and
only if the headers that are read from the noise stay in it. -/
theorem resync_iff {t : SerialTransport} (ht : t.Receiving) {u : Stm32UartTransport}
    (hu : u.recvTransport = .self) {h : DmqHeader} {payload : List UInt8}
    (hfits : SerialTransport.Fits h payload) {noise more : List (Option UInt8)}
    (hnoise : ¬ [0xAA, 0x55] <:+: noise.reduceOption) {fd : Feed UInt8}
    (hfd : fd.symbols = noise ++ ((SerialTransport.frame h payload).map some ++ more)) :
    (GivesFirst (fun fd => some (t.receive fd)) fd h payload (fun fd => fd.symbols = more) ↔
      SerialTransport.trailing noise % 2 = 0) ∧
    (payload.length ≤ Stm32UartTransport.bufferSize →
      (GivesFirst u.receive fd.arriving h payload (· = more.reduceOption) ↔
        Stm32UartTransport.EndsWith noise.reduceOption = true)) := by
  refine ⟨SerialTransport.givesFirst_iff ht hnoise hfits hfd, fun hbuf => ?_⟩
  have harriving : fd.arriving =
      noise.reduceOption ++ (SerialTransport.frame h payload ++ more.reduceOption) := by
    rw [Feed.arriving, hfd, List.reduceOption_append, List.reduceOption_append,
      Feed.reduceOption_map_some]
  rw [harriving]
  exact Stm32UartTransport.givesFirst_iff hu hnoise hfits hbuf

/-! ### Noise -/

def goodHeader : DmqHeader := { DmqHeader.make 1 5 with length := 1 }

theorem goodHeader_fits : SerialTransport.Fits goodHeader [42] := ⟨rfl, rfl, by decide⟩

/-- Noise and then a frame with one byte of payload. -/
def noisyFeed (noise : List UInt8) : Feed UInt8 :=
  [.data (noise ++ SerialTransport.frame goodHeader [42])]

def uartEnd : Stm32UartTransport := ⟨.self, .self, false⟩

/-- A first marker byte well before the frame does no harm. -/
theorem resync_iff_noise :
    GivesFirst (fun fd => some (SerialTransport.serialEnd.receive fd))
        (noisyFeed [0xAA, 1, 2, 3, 4, 5, 6, 7]) goodHeader [42] (fun fd => fd.symbols = []) ∧
      GivesFirst uartEnd.receive (noisyFeed [0xAA, 1, 2, 3, 4, 5, 6, 7]).arriving goodHeader [42]
        (· = []) := by
  have hfd : (noisyFeed [0xAA, 1, 2, 3, 4, 5, 6, 7]).symbols =
      [0xAA, 1, 2, 3, 4, 5, 6, 7].map some ++
        ((SerialTransport.frame goodHeader [42]).map some ++ []) := by decide +kernel
  have hnoise : ¬ [0xAA, 0x55] <:+:
      ([0xAA, 1, 2, 3, 4, 5, 6, 7].map (some : UInt8 → Option UInt8)).reduceOption := by decide
  have hiff := resync_iff (t := SerialTransport.serialEnd) (u := uartEnd) ⟨rfl, rfl⟩ rfl
    goodHeader_fits hnoise hfd
  exact ⟨hiff.1.mpr (by decide), (hiff.2 (by decide)).mpr (by decide)⟩

/-- One first marker byte right before a frame: both transports lose it. -/
theorem not_resync : ¬ [0xAA, 0x55] <:+: [(0xAA : UInt8)] ∧
    SerialTransport.Fits goodHeader [42] ∧
    ¬ GivesFirst (fun fd => some (SerialTransport.serialEnd.receive fd)) (noisyFeed [0xAA])
      goodHeader [42] (fun fd => fd.symbols = []) ∧
    ¬ GivesFirst uartEnd.receive (noisyFeed [0xAA]).arriving goodHeader [42] (· = []) := by
  refine ⟨by decide, goodHeader_fits, ?_, ?_⟩
  · have hfd : (noisyFeed [0xAA]).symbols =
        [some 0xAA] ++ ((SerialTransport.frame goodHeader [42]).map some ++ []) := by
      decide +kernel
    rw [SerialTransport.givesFirst_iff ⟨rfl, rfl⟩ (by decide) goodHeader_fits hfd]
    decide
  · have harriving : (noisyFeed [0xAA]).arriving =
        [0xAA] ++ (SerialTransport.frame goodHeader [42] ++ []) := by decide +kernel
    rw [harriving, Stm32UartTransport.givesFirst_iff rfl (by decide) goodHeader_fits (by decide)]
    decide

end AsyncSqlite
