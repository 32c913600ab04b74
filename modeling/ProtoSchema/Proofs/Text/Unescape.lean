import ProtoSchema.Proofs.Numeral
import ProtoSchema.Proofs.Text.Escape
import ProtoSchema.Proofs.Traverse

/-!
# The grammar of escaped text

An escaped text is a sequence of items (`Item`): bytes that stand for themselves, named escapes, and
numbers in hexadecimal or octal digits, of which an escape takes as many as there are, up to its limit.
**A text is unescaped exactly when its bytes split into items, and then to their values**
(`unescape_grammar`).

The bytes may also be read by their indices, as long as these are in range (`scan?`). They always are,
and what is read is the same (`scan?_zero`).
-/

namespace ProtoSchema.Text

/-! ## Items -/

/-- The byte of a character of ASCII. -/
def byte (c : Char) : UInt8 := UInt8.ofNat c.toNat

/-- The characters that may follow a backslash, and those that the two stand for. -/
def signs : List (Char × Char) :=
  [('n', '\n'), ('r', '\r'), ('t', '\t'), ('a', '\x07'), ('b', '\x08'), ('f', '\x0C'), ('v', '\x0B'),
   ('\\', '\\'), ('\x27', '\x27'), ('\x22', '\x22'), ('?', '?')]

/-- The byte is a digit of the radix. -/
def IsDigit (radix : Nat) (b : UInt8) : Prop := ∃ d, Numeral.Spells radix (latin1 b) d

/-- The bytes are the longest run of at most `most` digits in front of the rest. -/
structure LongestRun (radix most : Nat) (ds rest : Bytes) : Prop where
  digits : ∀ b ∈ ds, IsDigit radix b
  short : ds.length ≤ most
  longest : ds.length < most → ∀ b ∈ rest.head?, ¬IsDigit radix b

/-- The bytes begin with an item of the value, and the rest stands behind it. -/
inductive Item : Bytes → UInt8 → Bytes → Prop
  | plain {b : UInt8} {rest : Bytes} (ne : b ≠ byte '\\') : Item (b :: rest) b rest
  | named {c v : Char} {rest : Bytes} (sign : (c, v) ∈ signs) :
    Item (byte '\\' :: byte c :: rest) (byte v) rest
  | hex {x : UInt8} {ds rest : Bytes} {n : Nat} (mark : x = byte 'x' ∨ x = byte 'X')
    (run : LongestRun 16 2 ds rest) (writes : Numeral.Writes 16 (ds.map latin1) n) :
    Item (byte '\\' :: x :: (ds ++ rest)) (UInt8.ofNat n) rest
  | octal {ds rest : Bytes} {n : Nat} (run : LongestRun 8 3 ds rest)
    (writes : Numeral.Writes 8 (ds.map latin1) n) (le : n ≤ 255) :
    Item (byte '\\' :: (ds ++ rest)) (UInt8.ofNat n) rest

/-- The bytes are items, one after the other, with these values. -/
inductive Items : Bytes → Bytes → Prop
  | nil : Items [] []
  | cons {bs rest vs : Bytes} {v : UInt8} (item : Item bs v rest) (items : Items rest vs) :
    Items bs (v :: vs)

/-! ## Runs of digits -/

variable {radix most : Nat} {b v : UInt8} {bs ds rest vs : Bytes}

theorem isDigit_iff (h : radix ≤ 16) :
    IsDigit radix b ↔ Numeral.isDigit radix (latin1 b) = true := by
  constructor
  · rintro ⟨d, hd⟩
    exact ((Numeral.spells_iff h).1 hd).1
  · intro hb
    exact ⟨_, (Numeral.spells_iff h).2 ⟨hb, rfl⟩⟩

theorem leadingDigits_nil : leadingDigits radix most [] = [] := by
  rw [leadingDigits, List.take_nil]
  rfl

theorem leadingDigits_cons : leadingDigits radix (most + 1) (b :: bs) =
    if Numeral.isDigit radix (latin1 b) then latin1 b :: leadingDigits radix most bs else [] := by
  rw [leadingDigits, List.take_succ_cons, List.map_cons, List.takeWhile_cons]
  rfl

/-- A digit in front of a run makes the run longer. -/
theorem longestRun_cons : LongestRun radix (most + 1) (b :: ds) rest ↔
    IsDigit radix b ∧ LongestRun radix most ds rest := by
  constructor
  · rintro ⟨hdigits, hshort, hlongest⟩
    rw [List.forall_mem_cons] at hdigits
    rw [List.length_cons] at hshort hlongest
    exact ⟨hdigits.1, hdigits.2, by omega, fun hlt => hlongest (by omega)⟩
  · rintro ⟨hb, hdigits, hshort, hlongest⟩
    refine ⟨List.forall_mem_cons.2 ⟨hb, hdigits⟩, ?_, ?_⟩
    · rw [List.length_cons]
      omega
    · rw [List.length_cons]
      exact fun hlt => hlongest (by omega)

/-- **The digits that begin the bytes are the longest run of digits.** -/
theorem leadingDigits_append (hradix : radix ≤ 16) (h : LongestRun radix most ds rest) :
    leadingDigits radix most (ds ++ rest) = ds.map latin1 := by
  induction ds generalizing most with
  | nil =>
    cases most with
    | zero => rfl
    | succ most =>
      cases rest with
      | nil => exact leadingDigits_nil
      | cons b rest =>
        have hb := h.longest (Nat.succ_pos most) b rfl
        rw [isDigit_iff hradix] at hb
        rw [List.nil_append, leadingDigits_cons, if_neg hb]
        rfl
  | cons d ds ih =>
    cases most with
    | zero => exact absurd h.short (Nat.not_succ_le_zero _)
    | succ most =>
      obtain ⟨hd, hrun⟩ := longestRun_cons.1 h
      rw [List.cons_append, leadingDigits_cons, if_pos ((isDigit_iff hradix).1 hd), List.map_cons,
        ih hrun]

/-- Some of the bytes, possibly none, are the longest run of digits in front of the others. -/
theorem exists_longestRun (radix most : Nat) (bs : Bytes) :
    ∃ ds rest, bs = ds ++ rest ∧ LongestRun radix most ds rest := by
  induction bs generalizing most with
  | nil => exact ⟨[], [], rfl, by simp, Nat.zero_le _, by simp⟩
  | cons b bs ih =>
    cases most with
    | zero => exact ⟨[], b :: bs, rfl, by simp, Nat.le_refl _, by simp⟩
    | succ most =>
      by_cases hb : IsDigit radix b
      · obtain ⟨ds, rest, rfl, hrun⟩ := ih most
        exact ⟨b :: ds, rest, rfl, longestRun_cons.2 ⟨hb, hrun⟩⟩
      · refine ⟨[], b :: bs, rfl, by simp, Nat.zero_le _, ?_⟩
        intro _ c hc
        obtain rfl := Option.some.inj hc
        exact hb

/-- The number that a run of digits writes. -/
theorem writes_iff_of_run (hradix : radix ≤ 16) (h : LongestRun radix most ds rest) {n : Nat} :
    Numeral.Writes radix (ds.map latin1) n ↔
      ds ≠ [] ∧ Numeral.value radix (ds.map latin1) = n := by
  have hdigits : ∀ c ∈ ds.map latin1, Numeral.isDigit radix c = true := by
    rw [List.forall_mem_map]
    exact fun b hb => (isDigit_iff hradix).1 (h.digits b hb)
  rw [Numeral.writes_iff hradix, ne_eq, List.map_eq_nil_iff]
  exact and_congr_right fun _ => and_iff_right hdigits

/-! ## Reading items -/

theorem lookup_namedSigns {s : UInt8} : namedSigns.lookup s = some v ↔
    ∃ c w, (c, w) ∈ signs ∧ s = byte c ∧ v = byte w := by
  have htable : namedSigns = signs.map fun x => (byte x.1, byte x.2) := rfl
  have hlookup : ∀ x ∈ signs, namedSigns.lookup (byte x.1) = some (byte x.2) :=
    List.forall_iff_forall_mem.1 (by decide)
  constructor
  · intro h
    obtain ⟨front, back, heq, -⟩ := List.lookup_eq_some_iff.1 h
    have hmem : (s, v) ∈ namedSigns := heq ▸ List.mem_append_right _ List.mem_cons_self
    rw [htable] at hmem
    obtain ⟨⟨c, w⟩, hsign, hx⟩ := List.mem_map.1 hmem
    obtain ⟨rfl, rfl⟩ := Prod.mk.inj hx
    exact ⟨c, w, hsign, rfl, rfl⟩
  · rintro ⟨c, w, hsign, rfl, rfl⟩
    exact hlookup _ hsign

/-- An octal digit is no other sign. -/
theorem sign_of_isDigit (h : Numeral.isDigit 8 (latin1 b) = true) :
    namedSigns.lookup b = none ∧ ¬(b = 0x78 ∨ b = 0x58) := by
  have hall : ∀ m < 0x67, Numeral.isDigit 8 (latin1 (UInt8.ofNat m)) = true →
      namedSigns.lookup (UInt8.ofNat m) = none ∧ ¬(UInt8.ofNat m = 0x78 ∨ UInt8.ofNat m = 0x58) := by
    decide
  have hlt : b.toNat < 0x67 := by
    rw [← toNat_latin1]
    refine Numeral.toNat_lt_of_digitValue ?_
    rw [Numeral.isDigit, decide_eq_true_eq] at h
    omega
  have hb := hall b.toNat hlt
  rw [UInt8.ofNat_toNat] at hb
  exact hb h

theorem lookup_mark {x : UInt8} (hx : x = 0x78 ∨ x = 0x58) : namedSigns.lookup x = none := by
  rcases hx with rfl | rfl <;> rfl

/-- What follows `x` is read as far as it is digits. -/
theorem readEscape_hex {x : UInt8} (hx : x = 0x78 ∨ x = 0x58) (h : LongestRun 16 2 ds rest) :
    readEscape (x :: (ds ++ rest)) = if ds = [] then .error .noHexDigits
      else .ok (UInt8.ofNat (Numeral.value 16 (ds.map latin1)), rest) := by
  rw [readEscape, lookup_mark hx]
  simp only [if_pos hx, leadingDigits_append (by decide) h, List.map_eq_nil_iff, List.length_map,
    List.drop_left]

/-- An octal digit is read with those that follow it. -/
theorem readEscape_digit (hb : IsDigit 8 b) (h : LongestRun 8 2 ds rest) :
    readEscape (b :: (ds ++ rest)) = if Numeral.value 8 ((b :: ds).map latin1) < 256
      then .ok (UInt8.ofNat (Numeral.value 8 ((b :: ds).map latin1)), rest)
      else .error (.outOfRange ((b :: ds).map latin1)) := by
  have hdigit := (isDigit_iff (by decide)).1 hb
  obtain ⟨hnone, hhex⟩ := sign_of_isDigit hdigit
  rw [readEscape, hnone]
  simp only [if_neg hhex, if_pos hdigit, leadingDigits_append (by decide) h, List.map_cons,
    List.length_cons, List.length_map, Nat.add_sub_cancel, List.drop_left]

/-- What follows a backslash is read when it is an item. -/
theorem item_of_readEscape (h : readEscape bs = .ok (v, rest)) : Item (byte '\\' :: bs) v rest := by
  cases bs with
  | nil => simp [readEscape] at h
  | cons b bs =>
    cases hlookup : namedSigns.lookup b with
    | some w =>
      rw [readEscape, hlookup] at h
      obtain ⟨rfl, rfl⟩ := Prod.mk.inj (Except.ok.inj h)
      obtain ⟨c, w, hsign, rfl, rfl⟩ := lookup_namedSigns.1 hlookup
      exact .named hsign
    | none =>
      by_cases hx : b = 0x78 ∨ b = 0x58
      · obtain ⟨ds, back, rfl, hrun⟩ := exists_longestRun 16 2 bs
        rw [readEscape_hex hx hrun] at h
        split at h
        · simp at h
        · next hne =>
          obtain ⟨rfl, rfl⟩ := Prod.mk.inj (Except.ok.inj h)
          exact .hex hx hrun ((writes_iff_of_run (by decide) hrun).2 ⟨hne, rfl⟩)
      · by_cases hb : IsDigit 8 b
        · obtain ⟨ds, back, rfl, hrun⟩ := exists_longestRun 8 2 bs
          rw [readEscape_digit hb hrun] at h
          split at h
          · next hlt =>
            obtain ⟨rfl, rfl⟩ := Prod.mk.inj (Except.ok.inj h)
            have hrun' := longestRun_cons.2 ⟨hb, hrun⟩
            exact .octal hrun' ((writes_iff_of_run (by decide) hrun').2 ⟨List.cons_ne_nil _ _, rfl⟩)
              (Nat.le_of_lt_succ hlt)
          · simp at h
        · rw [isDigit_iff (by decide)] at hb
          rw [readEscape, hlookup] at h
          simp [if_neg hx, if_neg hb] at h

/-- **An item is read at the front of the bytes exactly when they begin with it.** -/
theorem readItem_eq_ok_iff : readItem b bs = .ok (v, rest) ↔ Item (b :: bs) v rest := by
  constructor
  · intro h
    unfold readItem at h
    split at h
    · next hb =>
      subst hb
      exact item_of_readEscape h
    · next hb =>
      obtain ⟨rfl, rfl⟩ := Prod.mk.inj (Except.ok.inj h)
      exact .plain hb
  · intro h
    cases h with
    | plain ne => exact if_neg ne
    | named sign =>
      have hslash : byte '\\' = 0x5C := rfl
      rw [readItem, if_pos hslash, readEscape, lookup_namedSigns.2 ⟨_, _, sign, rfl, rfl⟩]
    | hex mark run writes =>
      obtain ⟨hne, rfl⟩ := (writes_iff_of_run (by decide) run).1 writes
      exact (readEscape_hex mark run).trans (if_neg hne)
    | @octal ds _ _ run writes le =>
      obtain ⟨hne, rfl⟩ := (writes_iff_of_run (by decide) run).1 writes
      cases ds with
      | nil => exact absurd rfl hne
      | cons d ds =>
        obtain ⟨hd, hrun⟩ := longestRun_cons.1 run
        exact (readEscape_digit hd hrun).trans (if_pos (Nat.lt_succ_of_le le))

theorem unescapeBytes_nil : unescapeBytes [] = .ok [] := by rw [unescapeBytes]

/-- What begins with no item is refused. -/
theorem unescapeBytes_error {e : EscapeError} (h : readItem b bs = .error e) :
    unescapeBytes (b :: bs) = .error e := by
  rw [unescapeBytes]
  split
  · next heq => rw [h] at heq; cases heq; rfl
  · next heq => rw [h] at heq; cases heq

/-- **Bytes are unescaped exactly when they are items, and then to the values of these.** -/
theorem unescapeBytes_eq_ok_iff : unescapeBytes bs = .ok vs ↔ Items bs vs := by
  constructor
  · intro h
    induction bs using unescapeBytes.induct generalizing vs with
    | case1 =>
      rw [unescapeBytes_nil] at h
      obtain rfl := Except.ok.inj h
      exact .nil
    | case2 b bs e hitem =>
      rw [unescapeBytes_error hitem] at h
      simp at h
    | case3 b bs v tail hitem ih =>
      rw [unescapeBytes_item hitem] at h
      obtain ⟨vs, hvs, rfl⟩ := Traverse.map_eq_ok.1 h
      exact .cons (readItem_eq_ok_iff.1 hitem) (ih hvs)
  · intro h
    induction h with
    | nil => exact unescapeBytes_nil
    | @cons bs rest vs v item items ih =>
      cases bs with
      | nil => cases item
      | cons b bs =>
        rw [unescapeBytes_item (readItem_eq_ok_iff.2 item), ih]
        rfl

/-! ## Reading by indices -/

/-- The bytes from one index up to another, if both are in range. -/
def slice? (bs : Bytes) (first last : Nat) : Option Bytes :=
  if first ≤ last ∧ last ≤ bs.length then some ((bs.take last).drop first) else none

/-- How many digits stand at the index, at most two; nothing if there is no such place. -/
def countDigits? (radix : Nat) (bs : Bytes) (i : Nat) : Option Nat :=
  (slice? bs (min i bs.length) bs.length).map fun tail => (leadingDigits radix 2 tail).length

/-- The escape that stands behind a backslash, with the index behind the escape; nothing if an index is
out of range. -/
def escapeAt? (bs : Bytes) (i : Nat) : Option (Except EscapeError (UInt8 × Nat)) :=
  match bs[i]? with
  | none => some (.error .danglingBackslash)
  | some sign =>
    match namedSigns.lookup sign with
    | some v => some (.ok (v, i + 1))
    | none =>
      if sign = 0x78 ∨ sign = 0x58 then
        (countDigits? 16 bs (i + 1)).bind fun count =>
          if count = 0 then some (.error .noHexDigits)
          else (slice? bs (i + 1) (i + 1 + count)).map fun digits =>
            .ok (UInt8.ofNat (Numeral.value 16 (digits.map latin1)), i + 1 + count)
      else if Numeral.isDigit 8 (latin1 sign) then
        (countDigits? 8 bs (i + 1)).bind fun count =>
          (slice? bs i (i + (1 + count))).map fun digits =>
            let n := Numeral.value 8 (digits.map latin1)
            if n < 256 then .ok (UInt8.ofNat n, i + (1 + count))
            else .error (.outOfRange (digits.map latin1))
      else some (.error (.unknown sign))

/-- The item at an index, with the index behind it; nothing if an index is out of range. -/
def itemAt? (bs : Bytes) (i : Nat) : Option (Except EscapeError (UInt8 × Nat)) :=
  bs[i]?.bind fun b => if b = 0x5C then escapeAt? bs (i + 1) else some (.ok (b, i + 1))

theorem le_of_escapeAt? {i j : Nat} (h : escapeAt? bs i = some (.ok (v, j))) : i ≤ j := by
  unfold escapeAt? at h
  split at h
  · simp at h
  · split at h
    · simp only [Option.some.injEq, Except.ok.injEq, Prod.mk.injEq] at h
      omega
    · split at h
      · obtain ⟨count, -, h⟩ := Option.bind_eq_some_iff.1 h
        split at h
        · simp at h
        · obtain ⟨digits, -, h⟩ := Option.map_eq_some_iff.1 h
          simp only [Except.ok.injEq, Prod.mk.injEq] at h
          omega
      · split at h
        · obtain ⟨count, -, h⟩ := Option.bind_eq_some_iff.1 h
          obtain ⟨digits, -, h⟩ := Option.map_eq_some_iff.1 h
          dsimp only at h
          split at h
          · simp only [Except.ok.injEq, Prod.mk.injEq] at h
            omega
          · simp at h
        · simp at h

/-- Every item moves the index on. -/
theorem lt_of_itemAt? {i j : Nat} (h : itemAt? bs i = some (.ok (v, j))) : i < j := by
  obtain ⟨b, -, h⟩ := Option.bind_eq_some_iff.1 h
  split at h
  · exact le_of_escapeAt? h
  · simp only [Option.some.injEq, Except.ok.injEq, Prod.mk.injEq] at h
    omega

/-- The values of the items from an index on; nothing if one of them takes an index out of range. -/
def scan? (bs : Bytes) (i : Nat) : Option (Except EscapeError Bytes) :=
  if i < bs.length then
    match _h : itemAt? bs i with
    | none => none
    | some (.error e) => some (.error e)
    | some (.ok (v, j)) => (scan? bs j).map (Except.map (v :: ·))
  else some (.ok [])
termination_by bs.length - i
decreasing_by
  have := lt_of_itemAt? _h
  omega

variable {front : Bytes}

theorem slice?_append (front mid back : Bytes) :
    slice? (front ++ (mid ++ back)) front.length (front.length + mid.length) = some mid := by
  have hin : front.length ≤ front.length + mid.length ∧
      front.length + mid.length ≤ (front ++ (mid ++ back)).length := by
    simp only [List.length_append]
    omega
  rw [slice?, if_pos hin, List.take_length_add_append, List.take_left, List.drop_left]

/-- The digits that are counted are the longest run of them. -/
theorem countDigits?_append (front : Bytes) (hradix : radix ≤ 16) (h : LongestRun radix 2 ds rest) :
    countDigits? radix (front ++ (ds ++ rest)) front.length = some ds.length := by
  have hslice := slice?_append front (ds ++ rest) []
  rw [List.append_nil, ← List.length_append] at hslice
  have hmin : min front.length (front ++ (ds ++ rest)).length = front.length := by
    simp
  rw [countDigits?, hmin, hslice, Option.map_some, leadingDigits_append hradix h, List.length_map]

theorem scan?_of_error {i : Nat} {e : EscapeError} (hi : i < bs.length)
    (h : itemAt? bs i = some (.error e)) : scan? bs i = some (.error e) := by
  rw [scan?, if_pos hi]
  split
  all_goals simp_all

theorem scan?_of_ok {i j : Nat} (hi : i < bs.length) (h : itemAt? bs i = some (.ok (v, j))) :
    scan? bs i = (scan? bs j).map (Except.map (v :: ·)) := by
  rw [scan?, if_pos hi]
  split
  all_goals simp_all

/-- What is read of the bytes, with the index at which the rest begins in place of the rest. -/
def located (bs : Bytes) (x : UInt8 × Bytes) : UInt8 × Nat := (x.1, bs.length - x.2.length)

theorem located_append (front mid : Bytes) (v : UInt8) (rest : Bytes) :
    located (front ++ (mid ++ rest)) (v, rest) = (v, front.length + mid.length) := by
  simp only [located, List.length_append, Prod.mk.injEq, true_and]
  omega

theorem located_cons (front ds rest : Bytes) :
    located (front ++ b :: (ds ++ rest)) (v, rest) = (v, front.length + (1 + ds.length)) := by
  rw [Nat.add_comm 1, ← List.length_cons]
  exact located_append front (b :: ds) v rest

theorem getElem?_append_length (front bs : Bytes) : (front ++ bs)[front.length]? = bs.head? := by
  rw [List.getElem?_append_right (Nat.le_refl _), Nat.sub_self, List.head?_eq_getElem?]

/-- The digits behind `x` are in range. -/
theorem escapeAt?_hex {x : UInt8} (hx : x = 0x78 ∨ x = 0x58) (h : LongestRun 16 2 ds rest) :
    escapeAt? (front ++ x :: (ds ++ rest)) front.length = some (if ds = [] then .error .noHexDigits
      else .ok (UInt8.ofNat (Numeral.value 16 (ds.map latin1)), front.length + (1 + ds.length))) := by
  have hcount := countDigits?_append (front ++ [x]) (by decide) h
  have hslice := slice?_append (front ++ [x]) ds rest
  simp only [List.append_assoc, List.singleton_append, List.length_append, List.length_singleton,
    Nat.add_assoc] at hcount hslice
  rw [escapeAt?, getElem?_append_length, List.head?_cons]
  simp only [lookup_mark hx, if_pos hx, hcount, Option.bind_some, hslice, Option.map_some,
    List.length_eq_zero_iff, Nat.add_assoc]
  split <;> rfl

/-- An octal digit and those behind it are in range. -/
theorem escapeAt?_digit (hb : IsDigit 8 b) (h : LongestRun 8 2 ds rest) :
    escapeAt? (front ++ b :: (ds ++ rest)) front.length =
      some (if Numeral.value 8 ((b :: ds).map latin1) < 256
        then .ok (UInt8.ofNat (Numeral.value 8 ((b :: ds).map latin1)), front.length + (1 + ds.length))
        else .error (.outOfRange ((b :: ds).map latin1))) := by
  have hcount := countDigits?_append (front ++ [b]) (by decide) h
  have hslice := slice?_append front (b :: ds) rest
  simp only [List.append_assoc, List.singleton_append, List.length_append, List.length_singleton]
    at hcount
  rw [List.length_cons, Nat.add_comm ds.length, List.cons_append] at hslice
  have hdigit := (isDigit_iff (by decide)).1 hb
  obtain ⟨hnone, hhex⟩ := sign_of_isDigit hdigit
  rw [escapeAt?, getElem?_append_length, List.head?_cons]
  simp only [hnone, if_neg hhex, if_pos hdigit, hcount, Option.bind_some, hslice, Option.map_some]

/-- **Behind a backslash, no index is out of range.** -/
theorem escapeAt?_append (front bs : Bytes) : escapeAt? (front ++ bs) front.length =
    some ((readEscape bs).map (located (front ++ bs))) := by
  cases bs with
  | nil => rw [escapeAt?, getElem?_append_length]; rfl
  | cons sign bs =>
    by_cases hx : sign = 0x78 ∨ sign = 0x58
    · obtain ⟨ds, rest, rfl, hrun⟩ := exists_longestRun 16 2 bs
      rw [escapeAt?_hex hx hrun, readEscape_hex hx hrun]
      split
      · rfl
      · rw [Except.map, located_cons]
    · by_cases hb : IsDigit 8 sign
      · obtain ⟨ds, rest, rfl, hrun⟩ := exists_longestRun 8 2 bs
        rw [escapeAt?_digit hb hrun, readEscape_digit hb hrun]
        split
        · rw [Except.map, located_cons]
        · rfl
      · rw [isDigit_iff (by decide)] at hb
        rw [escapeAt?, getElem?_append_length, List.head?_cons, readEscape]
        simp only [if_neg hx, if_neg hb]
        cases namedSigns.lookup sign with
        | none => rfl
        | some w => exact congrArg (fun x => some (Except.ok x)) (located_cons front [] bs).symm

/-- **At an index in range, the item is the one with which the bytes from there on begin.** -/
theorem itemAt?_append (front : Bytes) (b : UInt8) (bs : Bytes) :
    itemAt? (front ++ b :: bs) front.length =
      some ((readItem b bs).map (located (front ++ b :: bs))) := by
  rw [itemAt?, getElem?_append_length, List.head?_cons, Option.bind_some, readItem]
  by_cases hb : b = 0x5C
  · have hescape := escapeAt?_append (front ++ [b]) bs
    rw [List.append_assoc, List.length_append] at hescape
    rw [if_pos hb, if_pos hb]
    exact hescape
  · rw [if_neg hb, if_neg hb]
    exact congrArg (fun x => some (Except.ok x)) (located_cons front [] bs).symm

/-- An item stands in front of its rest. -/
theorem Item.exists_append (h : Item bs v rest) : ∃ mid, bs = mid ++ rest := by
  cases h with
  | plain => exact ⟨[_], rfl⟩
  | named => exact ⟨[_, _], rfl⟩
  | @hex x ds => exact ⟨byte '\\' :: x :: ds, rfl⟩
  | @octal ds => exact ⟨byte '\\' :: ds, rfl⟩

/-- **From an index in range, the items are those of the bytes from there on.** -/
theorem scan?_append (front bs : Bytes) :
    scan? (front ++ bs) front.length = some (unescapeBytes bs) := by
  induction bs using unescapeBytes.induct generalizing front with
  | case1 =>
    rw [scan?, List.append_nil, if_neg (Nat.lt_irrefl _), unescapeBytes_nil]
  | case2 b bs e hitem =>
    have hat := itemAt?_append front b bs
    rw [hitem] at hat
    rw [unescapeBytes_error hitem, scan?_of_error (by simp) hat]
  | case3 b bs v rest hitem ih =>
    obtain ⟨mid, hmid⟩ := (readItem_eq_ok_iff.1 hitem).exists_append
    have hat := itemAt?_append front b bs
    have hplace := located_append front mid v rest
    rw [← hmid] at hplace
    rw [hitem, Except.map, hplace] at hat
    have hrest := ih (front ++ mid)
    rw [List.append_assoc, ← hmid, List.length_append] at hrest
    rw [scan?_of_ok (by simp) hat, hrest, unescapeBytes_item hitem]
    rfl

theorem scan?_zero (bs : Bytes) : scan? bs 0 = some (unescapeBytes bs) := scan?_append [] bs

/-- **A text is unescaped exactly when its bytes split into items, and then to the values of these;
anything else is refused, and no index is out of range.** -/
theorem unescape_grammar (text : String) :
    (∀ vs, unescape text = .ok vs ↔ Items (utf8 text) vs) ∧
      ((¬∃ vs, Items (utf8 text) vs) → ∃ e, unescape text = .error e) ∧
      scan? (utf8 text) 0 = some (unescape text) := by
  have hiff : ∀ vs, unescape text = .ok vs ↔ Items (utf8 text) vs :=
    fun vs => unescapeBytes_eq_ok_iff
  refine ⟨hiff, fun hnone => ?_, scan?_zero _⟩
  cases h : unescape text with
  | error e => exact ⟨e, rfl⟩
  | ok vs => exact absurd ⟨vs, (hiff vs).1 h⟩ hnone

end ProtoSchema.Text
