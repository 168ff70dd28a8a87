/-!
Contract: floating-point numbers from decimal digits in a bounded significand.

Owns: how many digits the sixty-four bits of a significand take up, and the
number that a significand with a power of ten denotes.

Reading is quick rather than exact: digits that no longer fit are only counted,
and the significand is multiplied or divided by a power of ten, with one rounding
each. Two decimals of the same value may therefore denote neighbouring numbers.
-/

set_option autoImplicit false

namespace Gherkin.Decimal

/-- A significand holds the natural numbers below this bound: sixty-four bits. -/
def significandBound : Nat :=
  0x10000000000000000

/-- Appends digits to a significand as long as it can hold them; the second part
counts the digits from the first one on that did not fit. -/
def absorb (significand : Nat) : List Nat → Nat × Nat
  | [] => (significand, 0)
  | d :: ds =>
      if significand * 10 + d < significandBound then absorb (significand * 10 + d) ds
      else (significand, ds.length + 1)

/-- The greatest power of ten that is a finite number has this exponent. -/
def greatestPower : Nat :=
  308

def powerOfTen (exponent : Nat) : Float :=
  Float.ofScientific 1 false exponent

/-- Division by a power of ten, in steps of the greatest one that is a number. -/
def divide (x : Float) (exponent : Nat) : Float :=
  if exponent ≤ greatestPower then x / powerOfTen exponent
  else if x == 0 then x
  else divide (x / powerOfTen greatestPower) (exponent - greatestPower)
termination_by exponent
decreasing_by simp only [greatestPower] at *; omega

/-- The number `significand * 10 ^ exponent`, unless it is too great. Zero is zero
under every exponent, and what is too small becomes zero. -/
def scale? (significand : Nat) (exponent : Int) : Option Float :=
  let x := (UInt64.ofNat significand).toFloat
  match exponent with
  | .ofNat e =>
      if e ≤ greatestPower then
        let y := x * powerOfTen e
        if y.isInf then none else some y
      else if significand = 0 then some x
      else none
  | .negSucc e => some (divide x (e + 1))

end Gherkin.Decimal
