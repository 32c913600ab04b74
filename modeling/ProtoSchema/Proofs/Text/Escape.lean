import Mathlib.Data.List.Basic
import ProtoSchema.Text.Escape

/-!
# Escaping and unescaping

A byte is escaped in one of three ways (`escapeByte_cases`), each of which is read as the byte whatever
stands behind it: an octal escape has three digits, so no digit that follows is taken for one of its
own. Hence **escaped byte strings are unescaped to what they were** (`unescape_escape`). Escaped text
consists of characters of ASCII that print, and a quote in it stands behind the backslash that escapes
it (`exists_of_quote`), so that **between quotes it ends where it should** (`upToQuote_escape`).
-/

namespace ProtoSchema.Text

/-- The bytes of characters of ASCII. -/
def asciiBytes (cs : List Char) : Bytes := cs.map fun c => UInt8.ofNat c.toNat

/-- A text of characters of ASCII has a byte for each of them. -/
theorem utf8_ofList {cs : List Char} (h : ∀ c ∈ cs, c.toNat < 128) :
    utf8 (String.ofList cs) = asciiBytes cs := by
  have hchar : ∀ c ∈ cs, String.utf8EncodeChar c = [UInt8.ofNat c.toNat] := fun c hc =>
    if_pos (Nat.le_of_lt_succ (h c hc))
  rw [utf8, String.toUTF8_eq_toByteArray, String.toByteArray_ofList, List.utf8Encode,
    List.toList_data_toByteArray, asciiBytes, List.map_eq_flatMap]
  exact List.flatMap_congr hchar

theorem toNat_latin1 (b : UInt8) : (latin1 b).toNat = b.toNat := by
  have hvalid : b.toNat.isValidChar := Or.inl (Nat.lt_trans b.toNat_lt (by decide))
  rw [latin1, Char.ofNat, dif_pos hvalid]
  rfl

theorem asciiBytes_latin1 (b : UInt8) : asciiBytes [latin1 b] = [b] := by
  rw [asciiBytes, List.map_singleton, toNat_latin1, UInt8.ofNat_toNat]

/-! ## Writing -/

/-- Bytes with a name are written with their sign, bytes that print as they are, all others in octal. -/
theorem escapeByte_cases (b : UInt8) :
    (∃ sign, (b, sign) ∈ namedEscapes ∧ escapeByte b = ['\\', latin1 sign]) ∨
      (0x20 ≤ b ∧ b ≤ 0x7E ∧ (∀ x ∈ namedEscapes, x.1 ≠ b) ∧ escapeByte b = [latin1 b]) ∨
        escapeByte b = '\\' :: octal b := by
  cases hnamed : namedEscapes.lookup b with
  | some sign =>
    obtain ⟨front, back, heq, -⟩ := List.lookup_eq_some_iff.1 hnamed
    exact Or.inl ⟨sign, heq ▸ List.mem_append_right _ List.mem_cons_self, by rw [escapeByte, hnamed]⟩
  | none =>
    refine Or.inr ?_
    have hbyte : escapeByte b = if 0x20 ≤ b ∧ b ≤ 0x7E then [latin1 b] else '\\' :: octal b := by
      rw [escapeByte, hnamed]
    by_cases hprint : 0x20 ≤ b ∧ b ≤ 0x7E
    · refine Or.inl ⟨hprint.1, hprint.2, ?_, hbyte.trans (if_pos hprint)⟩
      intro x hx heq
      simpa [heq] using List.lookup_eq_none_iff.1 hnamed x hx
    · exact Or.inr (hbyte.trans (if_neg hprint))

/-- The digits of a byte in octal are digits. -/
theorem mem_octal {b : UInt8} {c : Char} (h : c ∈ octal b) : ∃ n < 8, c = Numeral.digit n := by
  have hb := b.toNat_lt
  rw [octal, List.mem_cons, List.mem_cons, List.mem_singleton] at h
  rcases h with rfl | rfl | rfl
  · exact ⟨_, by omega, rfl⟩
  · exact ⟨_, Nat.mod_lt _ (by decide), rfl⟩
  · exact ⟨_, Nat.mod_lt _ (by decide), rfl⟩

/-- **What is escaped is written in characters of ASCII that print.** -/
theorem printable_escapeByte {b : UInt8} {c : Char} (h : c ∈ escapeByte b) :
    0x20 ≤ c.toNat ∧ c.toNat ≤ 0x7E := by
  have hsigns : ∀ x ∈ namedEscapes, ∀ c ∈ ['\\', latin1 x.2], 0x20 ≤ c.toNat ∧ c.toNat ≤ 0x7E := by
    simp only [← List.forall_iff_forall_mem]
    decide
  have hdigits : ∀ n < 8, 0x20 ≤ (Numeral.digit n).toNat ∧ (Numeral.digit n).toNat ≤ 0x7E := by
    decide
  rcases escapeByte_cases b with ⟨sign, hmem, hb⟩ | ⟨hle, hge, -, hb⟩ | hb
  · rw [hb] at h
    exact hsigns _ hmem c h
  · rw [hb, List.mem_singleton] at h
    rw [h, toNat_latin1]
    exact ⟨hle, hge⟩
  · rw [hb, List.mem_cons] at h
    rcases h with rfl | h
    · decide
    · obtain ⟨n, hn, rfl⟩ := mem_octal h
      exact hdigits n hn

theorem printable_escape (bs : Bytes) :
    ∀ c ∈ (escape bs).toList, 0x20 ≤ c.toNat ∧ c.toNat ≤ 0x7E := by
  intro c hc
  rw [escape, String.toList_ofList] at hc
  obtain ⟨b, -, hc⟩ := List.mem_flatMap.1 hc
  exact printable_escapeByte hc

/-! ## Reading back -/

/-- An item is read before what stands behind it. -/
theorem unescapeBytes_item {b v : UInt8} {bs rest : Bytes} (h : readItem b bs = .ok (v, rest)) :
    unescapeBytes (b :: bs) = (unescapeBytes rest).map (v :: ·) := by
  rw [unescapeBytes]
  split
  · next heq => rw [h] at heq; cases heq
  · next heq => rw [h] at heq; cases heq; rfl

/-- Three octal digits are read as one byte, whatever stands behind them. -/
theorem readEscape_octal (b : UInt8) (rest : Bytes) :
    readEscape (asciiBytes (octal b) ++ rest) = .ok (b, rest) := by
  let sign (n : Nat) : UInt8 := UInt8.ofNat (Numeral.digit n).toNat
  have hsign : ∀ n < 8, namedSigns.lookup (sign n) = none ∧ ¬(sign n = 0x78 ∨ sign n = 0x58) ∧
      latin1 (sign n) = Numeral.digit n ∧ Numeral.isDigit 8 (Numeral.digit n) = true := by
    decide
  have hb := b.toNat_lt
  obtain ⟨hlookup, hhex, hchar, hdigit⟩ := hsign (b.toNat / 64) (by omega)
  obtain ⟨-, -, hchar', hdigit'⟩ := hsign (b.toNat / 8 % 8) (by omega)
  obtain ⟨-, -, hchar'', hdigit''⟩ := hsign (b.toNat % 8) (by omega)
  have hleading : leadingDigits 8 2 (sign (b.toNat / 8 % 8) :: sign (b.toNat % 8) :: rest) =
      [Numeral.digit (b.toNat / 8 % 8), Numeral.digit (b.toNat % 8)] := by
    simp [leadingDigits, hchar', hchar'', hdigit', hdigit'']
  have hvalue : Numeral.value 8 (octal b) = b.toNat := by
    simp only [octal, Numeral.value, List.foldl_cons, List.foldl_nil]
    rw [Numeral.digitValue_digit (by omega), Numeral.digitValue_digit (by omega),
      Numeral.digitValue_digit (by omega)]
    omega
  show readEscape (sign (b.toNat / 64) :: sign (b.toNat / 8 % 8) :: sign (b.toNat % 8) :: rest) = _
  rw [readEscape, hlookup]
  simp only [if_neg hhex, hchar, hdigit, hleading]
  rw [octal] at hvalue
  rw [if_pos trivial, hvalue, if_pos hb, UInt8.ofNat_toNat]
  rfl

/-- **An escaped byte is read as the byte, whatever stands behind it.** -/
theorem unescapeBytes_escapeByte (b : UInt8) (rest : Bytes) :
    unescapeBytes (asciiBytes (escapeByte b) ++ rest) = (unescapeBytes rest).map (b :: ·) := by
  have hsigns : ∀ x ∈ namedEscapes, namedSigns.lookup x.2 = some x.1 :=
    List.forall_iff_forall_mem.1 (by decide)
  rcases escapeByte_cases b with ⟨sign, hmem, hb⟩ | ⟨-, -, hnamed, hb⟩ | hb
  · have hbytes : asciiBytes ['\\', latin1 sign] = [0x5C, sign] :=
      congrArg (0x5C :: ·) (asciiBytes_latin1 sign)
    rw [hb, hbytes]
    refine unescapeBytes_item ?_
    show readEscape (sign :: rest) = _
    rw [readEscape, hsigns _ hmem]
  · rw [hb, asciiBytes_latin1]
    refine unescapeBytes_item (if_neg ?_)
    exact (hnamed (0x5C, 0x5C) (by decide)).symm
  · rw [hb]
    exact unescapeBytes_item (readEscape_octal b rest)

/-- **Escaped byte strings are unescaped to what they were.** -/
theorem unescape_escape (bs : Bytes) : unescape (escape bs) = .ok bs := by
  have hascii : ∀ c ∈ bs.flatMap escapeByte, c.toNat < 128 := by
    intro c hc
    obtain ⟨b, -, hc⟩ := List.mem_flatMap.1 hc
    exact Nat.lt_of_le_of_lt (printable_escapeByte hc).2 (by decide)
  rw [unescape, escape, utf8_ofList hascii]
  clear hascii
  induction bs with
  | nil =>
    rw [List.flatMap_nil, asciiBytes, List.map_nil, unescapeBytes]
  | cons b bs ih =>
    have happend : asciiBytes (escapeByte b ++ bs.flatMap escapeByte) =
        asciiBytes (escapeByte b) ++ asciiBytes (bs.flatMap escapeByte) := List.map_append
    rw [List.flatMap_cons, happend, unescapeBytes_escapeByte, ih]
    rfl

/-! ## Quotes -/

/-- The text up to the quote that ends it, which is the first one that no backslash escapes, and what
stands behind this quote. -/
def upToQuote (quote : Char) : List Char → Option (List Char × List Char)
  | [] => none
  | '\\' :: c :: rest => (upToQuote quote rest).map fun (cs, rest) => ('\\' :: c :: cs, rest)
  | c :: rest =>
    if c = quote then some ([], rest)
    else (upToQuote quote rest).map fun (cs, rest) => (c :: cs, rest)

/-- The byte is a single or a double quote. -/
def IsQuote (q : UInt8) : Prop := q = 0x22 ∨ q = 0x27

theorem latin1_inj {a b : UInt8} : latin1 a = latin1 b ↔ a = b := by
  constructor
  · intro h
    rw [← UInt8.toNat_inj, ← toNat_latin1, h, toNat_latin1]
  · rintro rfl
    rfl

variable {q b : UInt8} {bs : Bytes} {front back : List Char}

theorem escapeByte_quote (hq : IsQuote q) : escapeByte q = ['\\', latin1 q] := by
  rcases hq with rfl | rfl <;> rfl

theorem latin1_quote_ne (hq : IsQuote q) :
    latin1 q ≠ '\\' ∧ ∀ n < 8, latin1 q ≠ Numeral.digit n := by
  rcases hq with rfl | rfl <;> decide

/-- No other byte is written with a quote. -/
theorem quote_notMem_escapeByte (hq : IsQuote q) (hb : b ≠ q) : latin1 q ∉ escapeByte b := by
  obtain ⟨hback, hdigit⟩ := latin1_quote_ne hq
  have hnamed : ∀ x ∈ namedEscapes, x.2 = 0x22 ∨ x.2 = 0x27 → x.1 = x.2 := by
    simp only [← List.forall_iff_forall_mem]
    decide
  intro hmem
  rcases escapeByte_cases b with ⟨sign, hsign, heq⟩ | ⟨-, -, -, heq⟩ | heq
  · rw [heq, List.mem_cons, List.mem_singleton, latin1_inj] at hmem
    rcases hmem with hmem | rfl
    · exact hback hmem
    · exact hb (hnamed _ hsign hq)
  · rw [heq, List.mem_singleton, latin1_inj] at hmem
    exact hb hmem.symm
  · rw [heq, List.mem_cons] at hmem
    rcases hmem with hmem | hmem
    · exact hback hmem
    · obtain ⟨n, hn, hmem⟩ := mem_octal hmem
      exact hdigit n hn hmem

/-- **A quote stands behind a backslash that begins the escape of this quote.** -/
theorem exists_of_quote (hq : IsQuote q) (h : bs.flatMap escapeByte = front ++ latin1 q :: back) :
    ∃ before after, bs = before ++ q :: after ∧ front = before.flatMap escapeByte ++ ['\\'] ∧
      back = after.flatMap escapeByte := by
  induction bs generalizing front with
  | nil => simp at h
  | cons b bs ih =>
    -- The quote is written for a later byte, or for this one.
    rw [List.flatMap_cons, List.append_eq_append_iff] at h
    rcases h with ⟨later, rfl, h⟩ | ⟨part, hpart, h⟩
    · obtain ⟨before, after, rfl, rfl, rfl⟩ := ih h
      exact ⟨b :: before, after, rfl, by rw [List.flatMap_cons, List.append_assoc], rfl⟩
    · cases part with
      | nil =>
        obtain ⟨before, after, -, hfront, -⟩ := @ih [] h.symm
        simp at hfront
      | cons c part =>
        obtain ⟨rfl, rfl⟩ := List.cons.inj h
        by_cases hb : b = q
        · subst hb
          rw [escapeByte_quote hq] at hpart
          have hne := (latin1_quote_ne hq).1
          match front, hpart with
          | [], hpart => exact absurd (List.cons.inj hpart).1.symm hne
          | [x], hpart =>
            obtain ⟨rfl, rfl⟩ : '\\' = x ∧ part = [] := by simpa using hpart
            exact ⟨[], bs, rfl, rfl, rfl⟩
          | x :: y :: front, hpart => simp at hpart
        · refine absurd ?_ (quote_notMem_escapeByte hq hb)
          rw [hpart]
          simp

/-! ### Reading up to a quote -/

variable {quote c : Char} {cs : List Char}

theorem upToQuote_cons (hback : c ≠ '\\') (hquote : c ≠ quote) : upToQuote quote (c :: cs) =
    (upToQuote quote cs).map fun x => (c :: x.1, x.2) := by
  cases cs <;> simp [upToQuote, hback, hquote]

/-- **An escaped byte is passed over as a whole.** -/
theorem upToQuote_escapeByte (hq : IsQuote q) (b : UInt8) (cs : List Char) :
    upToQuote (latin1 q) (escapeByte b ++ cs) =
      (upToQuote (latin1 q) cs).map fun x => (escapeByte b ++ x.1, x.2) := by
  obtain ⟨hback, hdigit⟩ := latin1_quote_ne hq
  rcases escapeByte_cases b with ⟨sign, -, hb⟩ | ⟨-, -, hnamed, hb⟩ | hb
  · rw [hb]
    rfl
  · have hslash : latin1 b ≠ '\\' := by
      show latin1 b ≠ latin1 0x5C
      rw [ne_eq, latin1_inj]
      exact (hnamed (0x5C, 0x5C) (by decide)).symm
    have hne : latin1 b ≠ latin1 q := by
      rw [ne_eq, latin1_inj]
      rintro rfl
      rw [escapeByte_quote hq] at hb
      simp at hb
    rw [hb]
    exact upToQuote_cons hslash hne
  · -- The first digit is passed over with the backslash, the others are no quotes.
    have hplain : ∀ n < 8, ∀ cs, upToQuote (latin1 q) (Numeral.digit n :: cs) =
        (upToQuote (latin1 q) cs).map fun x => (Numeral.digit n :: x.1, x.2) := by
      intro n hn cs
      have hslash : ∀ m < 8, Numeral.digit m ≠ '\\' := by decide
      exact upToQuote_cons (hslash n hn) (hdigit n hn).symm
    have hlt := b.toNat_lt
    rw [hb, octal]
    show (upToQuote (latin1 q) (Numeral.digit (b.toNat / 8 % 8) :: Numeral.digit (b.toNat % 8) :: cs)).map
      _ = _
    rw [hplain _ (Nat.mod_lt _ (by decide)), hplain _ (Nat.mod_lt _ (by decide)), Option.map_map,
      Option.map_map]
    rfl

/-- **What is escaped is read up to the quote behind it.** -/
theorem upToQuote_escape (hq : IsQuote q) (bs : Bytes) (rest : List Char) :
    upToQuote (latin1 q) ((escape bs).toList ++ latin1 q :: rest) =
      some ((escape bs).toList, rest) := by
  rw [escape, String.toList_ofList]
  induction bs with
  | nil =>
    have hne := (latin1_quote_ne hq).1
    cases rest <;> simp [upToQuote, hne]
  | cons b bs ih =>
    rw [List.flatMap_cons, List.append_assoc, upToQuote_escapeByte hq, ih]
    rfl

/-- **Escaped text is text that can be put between quotes, and from which the bytes are read back.** It
consists of characters of ASCII that print. A quote in it, single or double, is the second character of
the escape of such a byte; so between quotes it ends at the quote behind it, whatever follows. And it is
unescaped to the bytes that it was made from, whichever of them follow one another. -/
theorem escape_quotable (bs : Bytes) :
    (∀ c ∈ (escape bs).toList, 0x20 ≤ c.toNat ∧ c.toNat ≤ 0x7E) ∧
      (∀ q, IsQuote q →
        (∀ front back, (escape bs).toList = front ++ latin1 q :: back → ∃ before after,
          bs = before ++ q :: after ∧ front = (escape before).toList ++ ['\\'] ∧
            back = (escape after).toList) ∧
        ∀ rest, upToQuote (latin1 q) ((escape bs).toList ++ latin1 q :: rest) =
          some ((escape bs).toList, rest)) ∧
      unescape (escape bs) = .ok bs := by
  refine ⟨printable_escape bs, fun q hq => ⟨fun front back h => ?_, upToQuote_escape hq bs⟩,
    unescape_escape bs⟩
  rw [escape, String.toList_ofList] at h
  obtain ⟨before, after, hbs, hfront, hback⟩ := exists_of_quote hq h
  refine ⟨before, after, hbs, ?_, ?_⟩
  · rw [escape, String.toList_ofList, hfront]
  · rw [escape, String.toList_ofList, hback]

/-- A digit behind a byte in octal is not taken for one of its digits. -/
example : escape [0x01, 0x37, 0x5C, 0x78, 0x22] = "\\0017\\\\x\\\"" := by decide

end ProtoSchema.Text
