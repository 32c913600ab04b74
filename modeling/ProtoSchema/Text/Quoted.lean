import ProtoSchema.Numeral
import ProtoSchema.Text.Printable

/-!
# Quoted text

A text between double quotes, on one line and in characters that print. A backslash stands in front of
a quote, a backslash and the letters for tab, line feed, return and the null character; any other
character that does not print is given by its number in hexadecimal.
-/

namespace ProtoSchema.Text

/-- The hexadecimal digits of a number; at least one. -/
def hexDigits (n : Nat) : List Char :=
  if n < 16 then [Numeral.digit n] else hexDigits (n / 16) ++ [Numeral.digit (n % 16)]
termination_by n
decreasing_by omega

/-- The quoted form of a character. -/
def quoteChar (c : Char) : List Char :=
  match c.toNat with
  | 0x00 => ['\\', '0']
  | 0x09 => ['\\', 't']
  | 0x0A => ['\\', 'n']
  | 0x0D => ['\\', 'r']
  | 0x22 => ['\\', c]
  | 0x5C => ['\\', c]
  | n => if isPrintable c then [c] else ['\\', 'u', '\x7b'] ++ hexDigits n ++ ['\x7d']

/-- The quoted form of a text. -/
def quote (s : String) : String :=
  "\"" ++ String.ofList (s.toList.flatMap quoteChar) ++ "\""

end ProtoSchema.Text
