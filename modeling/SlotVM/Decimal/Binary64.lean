/-
The fields of a binary64 floating-point number: its sign, and its magnitude as `m · 2^q`.
-/

namespace SlotVM.Decimal

/-- What a binary64 number stands for. -/
inductive Parts
  | nan
  | infinite (negative : Bool)
  /-- The number `m · 2^q`; `binade` is the stored exponent, 0 for zero and the subnormals. -/
  | finite (negative : Bool) (m : Nat) (q : Int) (binade : Nat)
deriving Repr

/-- The exponent of the smallest positive number, the unit of the subnormals. -/
def leastExponent : Int := -1074

/-- The parts of a binary64 number, from its 64 bits: sign, 11 bits of exponent, 52 of fraction. -/
def parts (x : Float) : Parts :=
  let bits := x.toBits.toNat
  let negative := bits / Nat.pow 2 63 = 1
  let binade : Nat := bits / Nat.pow 2 52 % Nat.pow 2 11
  let fraction := bits % Nat.pow 2 52
  if binade = Nat.pow 2 11 - 1 then
    if fraction = 0 then .infinite negative else .nan
  else if binade = 0 then .finite negative fraction leastExponent 0
  else .finite negative (Nat.pow 2 52 + fraction) (leastExponent + (binade - 1 : Nat)) binade

/-- The binary64 number `m · 2^q` with the given sign, for an `m` that fits into 53 bits and a `q`
no smaller than that of the subnormals. -/
def ofParts (negative : Bool) (m : Nat) (q : Int) : Float :=
  let shift := 52 - m.log2
  let normal := min shift (q - leastExponent).toNat
  let m := m * Nat.pow 2 normal
  let sign := if negative then Nat.pow 2 63 else 0
  let bits :=
    if m < Nat.pow 2 52 then m
    else (q - leastExponent - normal + 1).toNat * Nat.pow 2 52 + (m - Nat.pow 2 52)
  Float.ofBits (UInt64.ofNat (sign + bits))

end SlotVM.Decimal
