/-
Quoted text: how strings and characters are written between their delimiters. The named escapes
are NUL, tab, line feed, carriage return, the backslash and the delimiter itself; a character that
cannot stand alone in printed text is written by its code point.
-/
import SlotVM.Text.CharClass

namespace SlotVM.Text

/-- A delimiter of literals. -/
inductive Quote
  | single
  | double
deriving DecidableEq, Repr, Inhabited

/-- The character that opens and closes the literal. -/
def Quote.char : Quote → Char
  | .single => '\''
  | .double => '"'

/-- A code point in lower case hexadecimal digits, without leading zeros. -/
def hexDigits (n : Nat) : List Char := Nat.toDigits 16 n

/-- One character inside a literal delimited by `q`. -/
def escapeChar (q : Quote) (c : Char) : List Char :=
  if c = '\x00' then ['\\', '0']
  else if c = '\t' then ['\\', 't']
  else if c = '\n' then ['\\', 'n']
  else if c = '\r' then ['\\', 'r']
  else if c = '\\' ∨ c = q.char then ['\\', c]
  else if standsAlone c then [c]
  else ['\\', 'u', '\x7b'] ++ hexDigits c.toNat ++ ['\x7d']

/-- A string between double quotes. -/
def quoteString (s : String) : String :=
  String.ofList ('"' :: s.toList.flatMap (escapeChar .double) ++ ['"'])

/-- A character between single quotes. -/
def quoteChar (c : Char) : String :=
  String.ofList ('\'' :: escapeChar .single c ++ ['\''])

/-- Texts separated by a comma and a space. -/
def commaSeparated (parts : List String) : String := ", ".intercalate parts

end SlotVM.Text
