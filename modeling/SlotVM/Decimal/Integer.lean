/-
Decimal text of 64-bit integers. A number is read from an optional sign and one or more ASCII
digits, and only if it fits into its width.
-/

namespace SlotVM.Decimal

/-- The number written by a non-empty list of decimal digits. -/
def digits? (cs : List Char) : Option Nat :=
  if cs ≠ [] ∧ cs.all Char.isDigit then some (Nat.ofDigitChars 10 cs 0) else none

/-- One past the largest unsigned 64-bit number. -/
def unsignedLimit : Nat := Nat.pow 2 64

/-- Reads an unsigned 64-bit number; a plus sign may precede it. -/
def unsigned? (text : String) : Option Nat :=
  let digits := match text.toList with
    | '+' :: rest => digits? rest
    | cs => digits? cs
  digits.filter (· < unsignedLimit)

/-- The 64-bit word with the value `n`, if there is one. -/
def word? (n : Int) : Option Int64 :=
  if Int64.minValue.toInt ≤ n ∧ n ≤ Int64.maxValue.toInt then some (Int64.ofInt n) else none

/-- Reads a signed 64-bit number. -/
def signed? (text : String) : Option Int64 :=
  match text.toList with
  | '+' :: rest => (digits? rest).bind fun n => word? n
  | '-' :: rest => (digits? rest).bind fun n => word? (-n)
  | cs => (digits? cs).bind fun n => word? n

end SlotVM.Decimal
