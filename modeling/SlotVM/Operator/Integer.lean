/-
Arithmetic of 64-bit integers: results are exact, and a result that does not fit is an overflow.
-/
import SlotVM.Decimal.Integer
import SlotVM.Fault

namespace SlotVM

/-- The arithmetic operations of numbers. -/
inductive Arithmetic
  | add
  | sub
  | mul
  | div
  | rem
  | pow
deriving DecidableEq, Repr

/-- The symbol of an arithmetic operation. -/
def Arithmetic.symbol : Arithmetic → Symbol
  | .add => .plus
  | .sub => .minus
  | .mul => .star
  | .div => .slash
  | .rem => .percent
  | .pow => .power

/-- The word with the exact value `n`, or an overflow of the operator. -/
def fitted (symbol : Symbol) (n : Int) : Except Raised Int64 :=
  match Decimal.word? n with
  | some w => .ok w
  | none => .error (.overflow symbol)

/-- `acc * base ^ exponent` by repeated squaring, one bit of the exponent at a time. The base is
squared only if a bit is left, so a square that does not fit is never one that the result could do
without. -/
def powerTimes (acc base : Int64) (exponent : Nat) : Except Raised Int64 := do
  let product ←
    if exponent % 2 = 1 then fitted .power (acc.toInt * base.toInt) else .ok acc
  if h : exponent < 2 then return product
  else
    let square ← fitted .power (base.toInt * base.toInt)
    powerTimes product square (exponent / 2)
termination_by exponent
decreasing_by omega

/-- Arithmetic on integers. Division truncates toward zero, and the remainder has the sign of the
dividend. -/
def Arithmetic.integer (op : Arithmetic) (l r : Int64) : Except Raised Int64 :=
  match op with
  | .add => fitted .plus (l.toInt + r.toInt)
  | .sub => fitted .minus (l.toInt - r.toInt)
  | .mul => fitted .star (l.toInt * r.toInt)
  | .div =>
    if r = 0 then .error .divisionByZero else fitted .slash (l.toInt.tdiv r.toInt)
  | .rem =>
    if r = 0 then .error .divisionByZero
    -- the remainder exists as a word exactly if the quotient does
    else (fitted .percent (l.toInt.tdiv r.toInt)).bind fun _ =>
      fitted .percent (l.toInt.tmod r.toInt)
  | .pow =>
    if r < 0 then .error .negativeExponent else powerTimes 1 l r.toInt.toNat

/-- The two directions of a shift. -/
inductive Shift
  | left
  | right
deriving DecidableEq, Repr

/-- The symbol of a shift. -/
def Shift.symbol : Shift → Symbol
  | .left => .shiftLeft
  | .right => .shiftRight

/-- Shifts by 0 to 63 places: to the left dropping high bits, to the right keeping the sign. -/
def Shift.integer (s : Shift) (l r : Int64) : Except Raised Int64 :=
  if 0 ≤ r ∧ r < 64 then
    .ok <| match s with
      | .left => l <<< r
      | .right => l >>> r
  else .error (.shiftAmount r)

end SlotVM
