/-
The exact remainder of two floating-point numbers. It has the sign of the dividend and is smaller
than the divisor, and always is a floating-point number itself, so nothing is rounded.
-/
import SlotVM.Decimal.Binary64

namespace SlotVM

open Decimal

/-- The remainder of `m₁ · 2^q₁` by `m₂ · 2^q₂`, in units of the smaller power. -/
def remainderParts (m₁ : Nat) (q₁ : Int) (m₂ : Nat) (q₂ : Int) : Nat × Int :=
  let q := min q₁ q₂
  ((m₁ * Nat.pow 2 (q₁ - q).toNat) % (m₂ * Nat.pow 2 (q₂ - q).toNat), q)

/-- The remainder of a division whose quotient is truncated. There is none of an infinite number
and none by zero; by an infinite number, a number is its own remainder. -/
def floatRemainder (x y : Float) : Float :=
  match parts x, parts y with
  | .finite _ _ _ _, .infinite _ => x
  | .finite negative m₁ q₁ _, .finite _ m₂ q₂ _ =>
    if m₂ = 0 then Float.ofBits 0x7FF8000000000000
    else
      let (m, q) := remainderParts m₁ q₁ m₂ q₂
      ofParts negative m q
  | _, _ => Float.ofBits 0x7FF8000000000000

end SlotVM
