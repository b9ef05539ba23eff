/-
Decimal text of binary64 numbers. Writing gives the fewest digits that read back, always with a
point or an exponent; reading rounds to the nearest number, ties to even.
-/
import SlotVM.Decimal.Binary64
import SlotVM.Decimal.Shortest
import SlotVM.Decimal.Integer

namespace SlotVM.Decimal

/-! ## Writing -/

/-- How numbers are laid out. -/
structure FloatFormat where
  /-- Values from this power of ten on are written with an exponent. -/
  positionalBelow : Int
  /-- Values below this power of ten are written with an exponent. -/
  positionalFrom : Int
  nan : String
  infinity : String

/-- Numbers are positional from `10^-4` up to, but not including, `10^16`. -/
def floatFormat : FloatFormat := ⟨16, -4, "NaN", "inf"⟩

/-- Digits with a point after the first `before` of them; zeros fill the places that they leave
empty. -/
def positional (digits : List Char) (before : Int) : List Char :=
  if before ≤ 0 then
    '0' :: '.' :: (List.replicate (-before).toNat '0' ++ digits)
  else
    let whole := digits.take before.toNat
    let fraction := digits.drop before.toNat
    whole ++ List.replicate (before.toNat - digits.length) '0' ++ '.' ::
      (if fraction.isEmpty then ['0'] else fraction)

/-- One digit, the others after a point, and the power of ten. -/
def withExponent (digits : List Char) (before : Int) : List Char :=
  let power := (toString (before - 1)).toList
  match digits with
  | [d] => d :: 'e' :: power
  | d :: more => d :: '.' :: (more ++ 'e' :: power)
  | [] => []

/-- The text of a decimal in the layout that its size asks for. -/
def Scientific.text (f : FloatFormat) (s : Scientific) : List Char :=
  let digits := Nat.toDigits 10 s.digits
  let before := s.exponent + digits.length
  -- `before` digits stand before the point, so the value lies in `[10^(before-1), 10^before)`
  if before ≤ f.positionalBelow ∧ f.positionalFrom < before then positional digits before
  else withExponent digits before

/-- The text of a binary64 number. -/
def floatText (x : Float) : String :=
  match parts x with
  | .nan => floatFormat.nan
  | .infinite negative => (if negative then "-" else "") ++ floatFormat.infinity
  | .finite negative m q binade =>
    let magnitude :=
      if m = 0 then ['0', '.', '0']
      else (shortest m q (m = Nat.pow 2 52 ∧ 1 < binade)).text floatFormat
    String.ofList (if negative then '-' :: magnitude else magnitude)

/-! ## Reading -/

/-- A number cut off its leading sign, and whether that was a minus. -/
def splitSign : List Char → Bool × List Char
  | '+' :: cs => (false, cs)
  | '-' :: cs => (true, cs)
  | cs => (false, cs)

/-- The exponent after the mark `e`: an optional sign and at least one digit. -/
def exponent? (cs : List Char) : Option Int :=
  let (negative, cs) := splitSign cs
  (digits? cs).map fun n => if negative then -(n : Int) else n

/-- The power of ten that a number's text ends with; no text means the power zero. -/
def exponentPart? : List Char → Option Int
  | [] => some 0
  | c :: cs => if c = 'e' ∨ c = 'E' then exponent? cs else none

/-- Beyond this decimal magnitude every number is infinite, and below its negative zero. -/
def magnitudeLimit : Int := 400

/-- The binary64 number nearest to `mantissa · 10^exponent`. Numbers that are certainly too large
or too small are decided by their magnitude alone. -/
def nearest (mantissa : Nat) (exponent : Int) : Float :=
  let magnitude := exponent + (Nat.toDigits 10 mantissa).length
  if mantissa = 0 ∨ magnitude < -magnitudeLimit then Float.ofBits 0
  else if magnitudeLimit < magnitude then Float.ofScientific 1 false magnitudeLimit.toNat
  else Float.ofScientific mantissa (exponent < 0) exponent.natAbs

/-- Reads digits with an optional point, at least one digit in all, and an optional exponent. -/
def unsignedFloat? (cs : List Char) : Option Float :=
  let whole := cs.takeWhile Char.isDigit
  let afterWhole := cs.dropWhile Char.isDigit
  let (fraction, rest) := match afterWhole with
    | '.' :: more => (more.takeWhile Char.isDigit, more.dropWhile Char.isDigit)
    | more => ([], more)
  match digits? (whole ++ fraction), exponentPart? rest with
  | some mantissa, some e => some (nearest mantissa (e - fraction.length))
  | _, _ => none

/-- Reads a number: a sign, then digits or one of the words `inf`, `infinity` and `nan` in any
case. -/
def float? (text : String) : Option Float :=
  let (negative, cs) := splitSign text.toList
  let word := String.ofList (cs.map Char.toLower)
  let magnitude :=
    if word = "inf" ∨ word = "infinity" then some (Float.ofScientific 1 false magnitudeLimit.toNat)
    else if word = "nan" then some (Float.ofBits 0x7FF8000000000000)
    else unsignedFloat? cs
  magnitude.map fun x => if negative then -x else x

end SlotVM.Decimal
