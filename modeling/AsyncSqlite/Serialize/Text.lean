import AsyncSqlite.Serialize.Read
import AsyncSqlite.Serialize.Write

/-!
# AsyncSqlite.Serialize.Text — texts that come back other than they were

The three overloads for texts refuse what is too long, but not all of them in time. That
of `std::string` looks at the length before it narrows it, and is always faithful. That of
`std::wstring` does too, but writes two bytes of every character, whatever is in the
others. That of `const char*` looks at the length when it has been narrowed to 16 bits.
`text_faithful_iff` says which texts come back as they were.
-/

namespace AsyncSqlite

namespace Serialize

/-- What `write` does is a failure, or is read back in front of `tail`: into any target
that has room for the text, with the stream good afterwards. -/
def Faithful {α : Type} (tail : List UInt8) (write : WriteM Unit) (read : α → ReadM α)
    (room same : α → Prop) : Prop :=
  ∀ os e, ∃ w, write.run ⟨os, e⟩ = some ((), w) ∧
    (w.os.failbit = true ∨ ∃ bs, w.os = os.put bs ∧
      ∀ (is : IStream) (e' : ParsingError) (old : α), is.good = true → is.rest = bs ++ tail →
        room old →
        ∃ a r, (read old).run ⟨is, [], e'⟩ = some (a, r) ∧ same a ∧ r.is.good = true)

/-- The text in front of the null. -/
def cText (str : List UInt8) : List UInt8 := str.takeWhile (· ≠ 0)

/-- `strlen` -/
def strlen (str : List UInt8) : ℕ := (cText str).length

/-- The array begins with the text and its null. -/
def HoldsText (text array : List UInt8) : Prop := text ++ [0] <+: array

/-! ## Writers that succeed -/

/-- On a good stream the writer puts `bs`. -/
def Puts (w : WriteM Unit) (bs : List UInt8) : Prop :=
  ∀ s, s.os.failbit = false → w.run s = some ((), s.put bs)

section Puts

variable {w w' : WriteM Unit} {a b : List UInt8}

theorem Puts.bind (hw : Puts w a) (hw' : Puts w' b) : Puts (w >>= fun _ => w') (a ++ b) := by
  intro s hg
  have hg' : (s.put a).os.failbit = false := hg
  rw [StateT.run_bind, hw s hg, ← s.put_put]
  exact hw' _ hg'

theorem puts_pure : Puts (pure ()) [] := by
  intro s _
  simp [WriteState.put]

theorem puts_internal (bytes : List UInt8) : Puts (writeInternal bytes) bytes :=
  fun _ hg => run_writeInternal_of_good hg bytes

/-- The characters of a text one after the other. -/
theorem puts_forM {α : Type} {body : α → WriteM Unit} {f : α → List UInt8}
    (hbody : ∀ c, Puts (body c) (f c)) (l : List α) : Puts (l.forM body) (l.flatMap f) := by
  induction l with
  | nil => exact puts_pure
  | cons c l ih => exact (hbody c).bind ih

/-- A text whose size passes the check is written whole. -/
theorem puts_text {n : ℕ} (t : TypeTag) (hlen : n ≤ maxStringSize) (hzero : n = 0 → a = [])
    (hw : Puts w a) :
    Puts (do writeType t
             writeLiteral (u16 n) false
             if ← checkStream goodW failWith then
               if ← checkSlength failWith n then w) (t.code :: (u16 n ++ a)) := by
  have hbody : Puts (do if ← checkStream goodW failWith then
                          if ← checkSlength failWith n then w) a := by
    intro s hg
    rw [StateT.run_bind, run_checkStream_of_goodW hg, checkSlength_of_le hlen]
    by_cases hn : n = 0
    · subst hn
      rw [hzero rfl]
      exact puts_pure s hg
    · simp only [hn, ne_eq, not_false_eq_true, decide_true, pure_bind, if_true]
      exact hw s hg
  exact (puts_internal [t.code]).bind ((puts_internal (u16 n)).bind hbody)

end Puts

theorem puts_wstring {s : List UInt32} (hlen : s.length ≤ maxStringSize) :
    Puts (writeWString s) (TypeTag.wstring.code :: (u16 s.length ++ s.flatMap wideBytes)) := by
  unfold writeWString
  rw [if_neg (not_lt.mpr hlen)]
  apply puts_text .wstring hlen
  · intro hn
    rw [List.eq_nil_of_length_eq_zero hn]
    rfl
  · exact puts_forM (fun c => puts_internal (wideBytes c)) s

theorem puts_chars {str : List UInt8} (hlen : textSize str ≤ maxStringSize) :
    Puts (writeChars str)
      (TypeTag.string.code :: (u16 (textSize str) ++ str.take (textSize str))) := by
  apply puts_text .string hlen
  · intro hn
    rw [hn]
    rfl
  · exact puts_internal _

/-! ## Faithful or not -/

/-- Outside of every object there is room for any number of bytes. -/
theorem room_outside (is : IStream) (e : ParsingError) (k : ℕ) :
    ReadState.Room ⟨is, [], e⟩ k := by
  intro p hp
  cases hp

section Faithful

variable {α : Type} {tail bs : List UInt8} {w : WriteM Unit} {read : α → ReadM α}
  {room same : α → Prop} {P : List UInt8 → Prop}

/-- All that a writer puts is read back as it should be. -/
theorem faithful_of_reads (hw : Writes w P)
    (hread : ∀ bs, P bs → ∀ old, room old → ∃ a, same a ∧ Reads 0 (read old) bs a) :
    Faithful tail w read room same := by
  intro os e
  have ⟨s', hrun, hs'⟩ := hw ⟨os, e⟩
  refine ⟨s', hrun, ?_⟩
  cases hf : s'.os.failbit with
  | true => exact Or.inl rfl
  | false =>
    right
    have ⟨_, bs, hP, hput⟩ := hs' hf
    refine ⟨bs, congrArg WriteState.os hput, ?_⟩
    intro is e' old hg hrest hroom
    have ⟨a, hsame, hr⟩ := hread bs hP old hroom
    have hrun' := hr ⟨is, [], e'⟩ tail hg hrest (room_outside is e' _) (Nat.zero_le _)
    exact ⟨a, _, hrun', hsame, hg⟩

/-- What a faithful writer puts without failing is read as the text that was written. -/
theorem Faithful.same_of_reads (h : Faithful tail w read room same) (hw : Puts w bs) {old a : α}
    (hroom : room old) (hr : Reads 0 (read old) bs a) : same a := by
  rcases h OStream.fresh .none with ⟨s', hrun, hs'⟩
  have hput := hw ⟨OStream.fresh, .none⟩ rfl
  rw [hput] at hrun
  have hs : s' = WriteState.put ⟨OStream.fresh, .none⟩ bs :=
    (congrArg Prod.snd (Option.some.inj hrun)).symm
  subst hs
  rcases hs' with hfail | ⟨bs', hbs', hread⟩
  · cases hfail
  · -- the bytes are the contents of a stream that was empty
    have hbuf := congrArg OStream.buf hbs'
    have heq : bs' = bs := by
      simpa [WriteState.put, OStream.put, OStream.fresh, overwrite] using hbuf.symm
    subst heq
    rcases hread (IStream.open_ (bs' ++ tail)) .none old rfl rfl hroom with
      ⟨a', r, hrun', hsame, -⟩
    rw [hr ⟨IStream.open_ (bs' ++ tail), [], .none⟩ tail rfl rfl (room_outside _ _ _)
      (Nat.zero_le _)] at hrun'
    have ha : a = a' := congrArg Prod.fst (Option.some.inj hrun')
    rw [ha]
    exact hsame

end Faithful

/-! ## Wide characters -/

theorem ofU16_lt (bs : List UInt8) : ofU16 bs < 65536 := by
  unfold ofU16
  split
  case h_1 lo hi =>
    have hlo := lo.toNat_lt
    have hhi := hi.toNat_lt
    omega
  case h_2 => decide

/-- A character is what it was if two bytes hold it. -/
theorem wideChar_wideBytes_eq_iff (c : UInt32) : wideChar (wideBytes c) = c ↔ c.toNat < 65536 := by
  have hlt := ofU16_lt (wideBytes c)
  have hnat : (wideChar (wideBytes c)).toNat = ofU16 (wideBytes c) := by
    show (UInt32.ofNat (ofU16 (wideBytes c))).toNat = _
    rw [UInt32.toNat_ofNat']
    exact Nat.mod_eq_of_lt (by omega)
  constructor
  · intro h
    rw [← h, hnat]
    exact hlt
  · intro h
    apply UInt32.toNat_inj.mp
    rw [hnat]
    exact ofU16_u16 h

theorem faithful_wstring_iff (tail : List UInt8) (s : List UInt32) :
    Faithful tail (writeWString s) readWString (fun _ => True) (· = s) ↔
      maxStringSize < s.length ∨ ∀ c ∈ s, c.toNat < 65536 := by
  constructor
  · intro h
    rcases Nat.lt_or_ge maxStringSize s.length with hlong | hlen
    · exact Or.inl hlong
    · right
      have hread : Reads 0 (readWString []) _ _ := reads_wstring hlen
      have hback := h.same_of_reads (puts_wstring hlen) trivial hread
      have hall := List.map_eq_map_iff.mp (hback.trans (List.map_id s).symm)
      intro c hc
      exact (wideChar_wideBytes_eq_iff c).mp (hall c hc)
  · intro h
    apply faithful_of_reads (writes_wstring s)
    rintro _ ⟨hlen, rfl⟩ old _
    have hall : ∀ c ∈ s, c.toNat < 65536 := h.resolve_left (not_lt.mpr hlen)
    have hback : s.map (fun c => wideChar (wideBytes c)) = s := by
      refine (List.map_eq_map_iff.mpr ?_).trans (List.map_id s)
      intro c hc
      exact (wideChar_wideBytes_eq_iff c).mpr (hall c hc)
    exact ⟨_, hback, reads_wstring hlen⟩

/-! ## `char` strings -/

section Chars

variable {str : List UInt8}

theorem textSize_eq (str : List UInt8) : textSize str = (strlen str + 1) % 65536 := by
  show (strlen str % 65536 + 1) % 65536 = _
  omega

/-- The text of an array and its null are the first bytes of it. -/
theorem take_strlen (h : 0 ∈ str) : str.take (strlen str + 1) = cText str ++ [0] := by
  induction str with
  | nil => cases h
  | cons c str ih =>
    by_cases hc : c = 0
    · subst hc
      rfl
    · have hmem : 0 ∈ str := (List.mem_cons.mp h).resolve_left fun h0 => hc h0.symm
      have htext : cText (c :: str) = c :: cText str := by
        simp [cText, hc]
      have hlen : strlen (c :: str) = strlen str + 1 := by
        simp [strlen, htext]
      rw [hlen, List.take_succ_cons, ih hmem, htext]
      rfl

/-- An array of nulls over which fewer bytes than the text are read does not hold it. -/
theorem not_holdsText_of_take {k m : ℕ} (hk : k < strlen str) :
    ¬ HoldsText (cText str) (str.take k ++ List.replicate m 0) := by
  intro h
  have hprefix : cText str <+: str := List.takeWhile_prefix _
  have hlen : (str.take k).length = k :=
    List.length_take_of_le (hk.le.trans hprefix.length_le)
  have hk' : k < (cText str ++ [0]).length := by
    rw [List.length_append]
    exact Nat.lt_add_right _ hk
  have hget := h.getElem hk'
  rw [List.getElem_append_left hk, List.getElem_append_right hlen.le,
    List.getElem_replicate] at hget
  -- the byte behind those that were read is one of the text
  have hmem : (0 : UInt8) ∈ cText str := hget ▸ List.getElem_mem hk
  have hne := List.mem_takeWhile_imp hmem
  exact absurd hne (by decide)

/-- What an array holds when the bytes that were written are read into it. -/
theorem reads_textSize (h : 0 ∈ str) (hlen : textSize str ≤ maxStringSize) {array : List UInt8}
    (hroom : textSize str ≤ array.length) :
    Reads 0 (readChars array array.length)
      (TypeTag.string.code :: (u16 (textSize str) ++ str.take (textSize str)))
      (str.take (textSize str) ++ array.drop (textSize str)) := by
  have htake : (str.take (textSize str)).length = textSize str :=
    List.length_take_of_le (textSize_le h)
  have hread : Reads 0 (readChars array array.length) _ _ :=
    reads_chars (htake.le.trans hlen) (htake.le.trans hroom)
  rw [htake] at hread
  exact hread

theorem faithful_chars_iff (tail : List UInt8) (h : 0 ∈ str) :
    Faithful tail (writeChars str) (fun array => readChars array array.length)
        (fun array => strlen str < array.length) (HoldsText (cText str)) ↔
      strlen str < maxStringSize ∨ maxStringSize < (strlen str + 1) % 65536 := by
  have hsize := textSize_eq str
  constructor
  · intro hf
    rcases Nat.lt_or_ge maxStringSize (textSize str) with hlong | hlen
    · right
      rw [← hsize]
      exact hlong
    · left
      by_contra hge
      have hlt : textSize str < strlen str := by
        unfold maxStringSize at hlen hge
        omega
      -- an array that is just large enough, all nulls
      have hroom : strlen str < (List.replicate (strlen str + 1) (0 : UInt8)).length := by
        rw [List.length_replicate]
        exact Nat.lt_succ_self _
      have hread := reads_textSize h hlen (hlt.trans hroom).le
      have hholds := hf.same_of_reads (puts_chars hlen) hroom hread
      rw [List.drop_replicate] at hholds
      exact not_holdsText_of_take hlt hholds
  · intro hcond
    apply faithful_of_reads (writes_chars str)
    rintro _ ⟨hlen, rfl⟩ array hroom
    have hfull : textSize str = strlen str + 1 := by
      unfold maxStringSize at hlen hcond
      omega
    refine ⟨_, ?_, reads_textSize h hlen (by omega)⟩
    rw [hfull, take_strlen h]
    exact List.prefix_append _ _

end Chars

/-- A `std::string` is always written faithfully or refused. A `std::wstring` is if and only
if it is refused for its length or two bytes hold each of its characters; a `char` string,
if and only if its text and its null take at most 1024 bytes, or more than that modulo
65536. -/
theorem text_faithful_iff (tail : List UInt8) :
    (∀ s, Faithful tail (writeString s) readString (fun _ => True) (· = s)) ∧
    (∀ s, Faithful tail (writeWString s) readWString (fun _ => True) (· = s) ↔
      maxStringSize < s.length ∨ ∀ c ∈ s, c.toNat < 65536) ∧
    ∀ str, 0 ∈ str →
      (Faithful tail (writeChars str) (fun array => readChars array array.length)
          (fun array => strlen str < array.length) (HoldsText (cText str)) ↔
        strlen str < maxStringSize ∨ maxStringSize < (strlen str + 1) % 65536) := by
  refine ⟨?_, faithful_wstring_iff tail, fun str h => faithful_chars_iff tail h⟩
  intro s
  apply faithful_of_reads (writes_string s)
  rintro _ ⟨hlen, rfl⟩ old _
  exact ⟨s, rfl, reads_string hlen⟩

/-- `n` times the letter A, and the null. -/
def letters (n : ℕ) : List UInt8 := List.replicate n 65 ++ [0]

theorem zero_mem_letters (n : ℕ) : 0 ∈ letters n :=
  List.mem_append_right _ (List.mem_singleton_self 0)

theorem strlen_letters (n : ℕ) : strlen (letters n) = n := by
  have htext : cText (letters n) = List.replicate n 65 := by
    induction n with
    | zero => rfl
    | succ n ih => exact congrArg (List.cons 65) ih
  rw [strlen, htext, List.length_replicate]

/-- 1023 letters are written, 1024 are refused, of 65535 nothing is written, of 65536 one. -/
theorem text_faithful_iff_letters :
    (∀ n ∈ [0, 1023, 1024, 65534], Faithful [] (writeChars (letters n))
      (fun array => readChars array array.length) (fun array => strlen (letters n) < array.length)
      (HoldsText (cText (letters n)))) ∧
    ∀ n ∈ [65535, 65536], ¬ Faithful [] (writeChars (letters n))
      (fun array => readChars array array.length) (fun array => strlen (letters n) < array.length)
      (HoldsText (cText (letters n))) := by
  constructor
  · intro n hn
    apply ((text_faithful_iff []).2.2 (letters n) (zero_mem_letters n)).mpr
    rw [strlen_letters]
    simp only [List.mem_cons, List.not_mem_nil, or_false] at hn
    unfold maxStringSize
    omega
  · intro n hn h
    have hcond := ((text_faithful_iff []).2.2 (letters n) (zero_mem_letters n)).mp h
    rw [strlen_letters] at hcond
    simp only [List.mem_cons, List.not_mem_nil, or_false] at hn
    unfold maxStringSize at hcond
    omega

/-- 65535 letters leave the stream good, and nothing comes back of them; of the wide
character U+1F600 another one does. -/
theorem not_faithful_letters :
    ¬ Faithful [] (writeChars (letters 65535)) (fun array => readChars array array.length)
        (fun array => strlen (letters 65535) < array.length)
        (HoldsText (cText (letters 65535))) ∧
      ¬ Faithful [] (writeWString [0x1F600]) readWString (fun _ => True) (· = [0x1F600]) := by
  constructor
  · intro h
    have hcond := (faithful_chars_iff [] (zero_mem_letters 65535)).mp h
    rw [strlen_letters] at hcond
    unfold maxStringSize at hcond
    omega
  · intro h
    rcases (faithful_wstring_iff [] [0x1F600]).mp h with hlong | hall
    · exact absurd hlong (by decide)
    · exact absurd (hall 0x1F600 List.mem_cons_self) (by decide)

end Serialize

end AsyncSqlite
