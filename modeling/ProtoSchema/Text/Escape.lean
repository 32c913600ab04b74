import ProtoSchema.Bytes
import ProtoSchema.Numeral

/-!
# Escaped byte strings

The form in which byte strings stand in text: printable ASCII as it is, everything else behind a
backslash. Writing uses the named escapes of three control characters, the backslash, the two quotes
and three octal digits; reading also knows the other named escapes, short octal runs and `\x`.

Reading takes one item after the other (`readItem`), each of which uses up at least one byte
(`length_readItem`).
-/

namespace ProtoSchema.Text

/-- Why an escaped text could not be read. -/
inductive EscapeError
  /-- The text ends in a backslash. -/
  | danglingBackslash
  /-- No hexadecimal digit follows `\x`. -/
  | noHexDigits
  /-- An octal escape is larger than a byte. -/
  | outOfRange (digits : List Char)
  /-- The byte after the backslash begins no escape. -/
  | unknown (byte : UInt8)
deriving DecidableEq, Repr

/-- The character with the number of the byte. -/
def latin1 (b : UInt8) : Char := Char.ofNat b.toNat

/-- The wording of an error. -/
def EscapeError.message : EscapeError → String
  | danglingBackslash => "dangling backslash"
  | noHexDigits => "\\x without hex digits"
  | outOfRange digits => "escape \\" ++ String.ofList digits ++ " out of range"
  | unknown byte => "unknown escape \\" ++ String.ofList [latin1 byte]

/-! ## Writing -/

/-- The byte in three octal digits. -/
def octal (b : UInt8) : List Char :=
  [Numeral.digit (b.toNat / 64), Numeral.digit (b.toNat / 8 % 8), Numeral.digit (b.toNat % 8)]

/-- The bytes that are written as a backslash and a sign, with the sign. -/
def namedEscapes : List (UInt8 × UInt8) :=
  [(0x0A, 0x6E), (0x0D, 0x72), (0x09, 0x74), (0x5C, 0x5C), (0x27, 0x27), (0x22, 0x22)]

/-- The escaped form of one byte. -/
def escapeByte (b : UInt8) : List Char :=
  match namedEscapes.lookup b with
  | some sign => ['\\', latin1 sign]
  | none => if 0x20 ≤ b ∧ b ≤ 0x7E then [latin1 b] else '\\' :: octal b

/-- The escaped form of a byte string. -/
def escape (bs : Bytes) : String := String.ofList (bs.flatMap escapeByte)

/-! ## Reading -/

/-- The signs that may follow a backslash, with the byte each pair stands for. -/
def namedSigns : List (UInt8 × UInt8) :=
  [(0x6E, 0x0A), (0x72, 0x0D), (0x74, 0x09), (0x61, 0x07), (0x62, 0x08), (0x66, 0x0C), (0x76, 0x0B),
   (0x5C, 0x5C), (0x27, 0x27), (0x22, 0x22), (0x3F, 0x3F)]

/-- The longest run of at most `most` digits that begins the bytes. -/
def leadingDigits (radix most : Nat) (bs : Bytes) : List Char :=
  ((bs.take most).map latin1).takeWhile (Numeral.isDigit radix)

/-- Reads what follows a backslash. -/
def readEscape : Bytes → Except EscapeError (UInt8 × Bytes)
  | [] => .error .danglingBackslash
  | sign :: rest =>
    match namedSigns.lookup sign with
    | some b => .ok (b, rest)
    | none =>
      if sign = 0x78 ∨ sign = 0x58 then
        let digits := leadingDigits 16 2 rest
        if digits = [] then .error .noHexDigits
        else .ok (UInt8.ofNat (Numeral.value 16 digits), rest.drop digits.length)
      else if Numeral.isDigit 8 (latin1 sign) then
        let digits := latin1 sign :: leadingDigits 8 2 rest
        let n := Numeral.value 8 digits
        if n < 256 then .ok (UInt8.ofNat n, rest.drop (digits.length - 1))
        else .error (.outOfRange digits)
      else .error (.unknown sign)

/-- Reads one item: a byte that stands for itself, or an escape. -/
def readItem (b : UInt8) (rest : Bytes) : Except EscapeError (UInt8 × Bytes) :=
  if b = 0x5C then readEscape rest else .ok (b, rest)

theorem length_readEscape {bs rest : Bytes} {b : UInt8} (h : readEscape bs = .ok (b, rest)) :
    rest.length < bs.length := by
  cases bs with
  | nil => simp [readEscape] at h
  | cons sign tail =>
    simp only [readEscape] at h
    repeat' split at h
    all_goals simp only [Except.ok.injEq, Prod.mk.injEq, reduceCtorEq] at h
    all_goals obtain ⟨-, rfl⟩ := h
    all_goals simp only [List.length_drop, List.length_cons]
    all_goals omega

theorem length_readItem {b v : UInt8} {rest tail : Bytes} (h : readItem b rest = .ok (v, tail)) :
    tail.length < (b :: rest).length := by
  unfold readItem at h
  split at h
  · have := length_readEscape h
    simp only [List.length_cons]
    omega
  · obtain ⟨-, rfl⟩ := Prod.mk.inj (Except.ok.inj h)
    simp

/-- The bytes that an escaped byte string stands for. -/
def unescapeBytes : Bytes → Except EscapeError Bytes
  | [] => .ok []
  | b :: rest =>
    match _h : readItem b rest with
    | .error e => .error e
    | .ok (v, tail) => (unescapeBytes tail).map (v :: ·)
termination_by bs => bs.length
decreasing_by exact length_readItem _h

/-- The bytes that an escaped text stands for. -/
def unescape (s : String) : Except EscapeError Bytes := unescapeBytes (utf8 s)

end ProtoSchema.Text
