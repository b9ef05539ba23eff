/-
The shortest decimal that reads back as a given binary floating-point value. A positive finite
value is `m · 2^q`; the reals that round to it form an interval around it, whose ends belong to it
if and only if `m` is even. Among the decimals with `n` digits only the two neighbours of the value
matter, so the search tests those for one digit, two digits, and so on.
-/

namespace SlotVM.Decimal

/-- A positive fraction `num / den`. -/
structure Ratio where
  num : Nat
  den : Nat
deriving Repr

/-- The fraction `m · 2^q`. -/
def Ratio.ofBinary (m : Nat) (q : Int) : Ratio :=
  if 0 ≤ q then ⟨m * Nat.pow 2 q.toNat, 1⟩ else ⟨m, Nat.pow 2 (-q).toNat⟩

/-- The fraction divided by `10^k`. -/
def Ratio.scale (r : Ratio) (k : Int) : Ratio :=
  if 0 ≤ k then ⟨r.num, r.den * Nat.pow 10 k.toNat⟩ else ⟨r.num * Nat.pow 10 (-k).toNat, r.den⟩

/-- The least `k` with `r < 10^k`: the number of digits before the point, zero or negative for
fractions below one. There `10^(-k) < 1 / r ≤ 10^(1 - k)`, so one less than `1 / r` rounded up has
`1 - k` digits. -/
def Ratio.magnitude (r : Ratio) : Int :=
  let whole := r.num / r.den
  if whole ≠ 0 then (Nat.toDigits 10 whole).length
  else 1 - (Nat.toDigits 10 ((r.den - 1) / r.num)).length

/-- The reals that round to a value: their ends, and whether the ends belong to them. -/
structure Interval where
  low : Ratio
  high : Ratio
  closed : Bool
deriving Repr

/-- Whether the natural number `d`, times the unit in which `low` and `high` are given, lies in the
interval. -/
def Interval.contains (i : Interval) (d : Nat) : Bool :=
  if i.closed then i.low.num ≤ d * i.low.den && d * i.high.den ≤ i.high.num
  else i.low.num < d * i.low.den && d * i.high.den < i.high.num

/-- The interval in units of `10^k`. -/
def Interval.scale (i : Interval) (k : Int) : Interval :=
  { i with low := i.low.scale k, high := i.high.scale k }

/-- The decimal `digits · 10^exponent`. -/
structure Scientific where
  digits : Nat
  exponent : Int
deriving Repr, DecidableEq

/-- The neighbour of `value` on the grid of multiples of `10^k` that lies in the interval: the
nearer one if both do, and the upper one if they are equally near. -/
def nearestOnGrid? (value : Ratio) (i : Interval) (k : Int) : Option Scientific :=
  let v := value.scale k
  let unit := i.scale k
  let d := v.num / v.den
  let rest := v.num % v.den
  match unit.contains d, unit.contains (d + 1) with
  | false, false => none
  | true, false => some ⟨d, k⟩
  | false, true => some ⟨d + 1, k⟩
  | true, true => some ⟨if v.den ≤ 2 * rest then d + 1 else d, k⟩

/-- The first grid with a hit, from `n` digits on. -/
def searchGrid (value : Ratio) (i : Interval) (magnitude : Int) : (fuel n : Nat) → Scientific
  | 0, n => ⟨(value.scale (magnitude - n)).num / (value.scale (magnitude - n)).den, magnitude - n⟩
  | fuel + 1, n =>
    match nearestOnGrid? value i (magnitude - n) with
    | some s => s
    | none => searchGrid value i magnitude fuel (n + 1)

/-- A decimal without trailing zeros among its digits. -/
def Scientific.trim : (fuel : Nat) → Scientific → Scientific
  | 0, s => s
  | fuel + 1, s =>
    if s.digits ≠ 0 ∧ s.digits % 10 = 0 then trim fuel ⟨s.digits / 10, s.exponent + 1⟩ else s

/-- The most digits a binary64 value needs to be told apart from its neighbours. -/
def maxDigits : Nat := 17

/-- The shortest decimal that rounds to `m · 2^q`. `narrow` says that the gap to the value below is
half the gap to the value above, as it is at a power of two. -/
def shortest (m : Nat) (q : Int) (narrow : Bool) : Scientific :=
  let value := Ratio.ofBinary m q
  let low := if narrow then Ratio.ofBinary (4 * m - 1) (q - 2) else Ratio.ofBinary (2 * m - 1) (q - 1)
  let high := Ratio.ofBinary (2 * m + 1) (q - 1)
  (searchGrid value ⟨low, high, m % 2 == 0⟩ value.magnitude maxDigits 1).trim maxDigits

end SlotVM.Decimal
