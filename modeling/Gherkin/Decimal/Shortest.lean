/-!
Contract: the shortest decimal that denotes a binary floating-point number.

Owns: the exact binary form of a finite number, the interval of reals that round
to it, and the decimal with the fewest digits in that interval (the nearest one,
should there be several).
Does not own: where the point and the exponent go (`Gherkin.Decimal.Layout`).

All arithmetic is exact, on natural numbers. The interval is measured in quarters
of the last binary place, so that its ends are whole.
-/

set_option autoImplicit false

namespace Gherkin.Decimal

/-- A positive number `significand * 2 ^ exponent`. -/
structure Binary where
  significand : Nat
  exponent : Int
  /-- The next smaller number is only half as far away as the next greater one. -/
  narrowBelow : Bool
deriving DecidableEq, Repr

/-- The leading bit of a significand, which is not stored. -/
def hiddenBit : Nat :=
  0x10000000000000

def Binary.ofFloat (x : Float) : Binary :=
  let bits := x.toBits.toNat
  let fraction : Nat := bits % hiddenBit
  let field : Nat := bits / hiddenBit % 0x800
  if field = 0 then ⟨fraction, -1074, false⟩
  else ⟨hiddenBit + fraction, (field : Int) - 1075, fraction = 0 && 1 < field⟩

structure Digits where
  digits : Nat
  exponent : Int
deriving DecidableEq, Repr

namespace Binary

/-- A point of the number's surroundings, in quarters of its last binary place,
brought to the scale on which `onGrid` measures decimals. -/
def onScale (b : Binary) (power : Int) (quarters : Nat) : Nat :=
  quarters * Nat.pow 2 (b.exponent - 2).toNat * Nat.pow 10 (-power).toNat

/-- The decimal `count * 10 ^ power` on the same scale. -/
def onGrid (b : Binary) (power : Int) (count : Nat) : Nat :=
  count * Nat.pow 10 power.toNat * Nat.pow 2 (2 - b.exponent).toNat

/-- Whether `count * 10 ^ power` rounds to the number. The ends of the interval do
exactly if the significand is even. -/
def readsBack (b : Binary) (power : Int) (count : Nat) : Bool :=
  let point := b.onGrid power count
  let low := b.onScale power (4 * b.significand - if b.narrowBelow then 1 else 2)
  let high := b.onScale power (4 * b.significand + 2)
  if b.significand % 2 = 0 then low ≤ point && point ≤ high else low < point && point < high

/-- The nearer of the two multiples of `10 ^ power` around the number, if any of
the two rounds to it; the even one if both are equally near. -/
def nearestOnGrid? (b : Binary) (power : Int) : Option Digits :=
  let value := b.onScale power (4 * b.significand)
  let below := value / b.onGrid power 1
  let above := below + 1
  let gapBelow := value - b.onGrid power below
  let gapAbove := b.onGrid power above - value
  match b.readsBack power below, b.readsBack power above with
  | true, true =>
      if gapBelow < gapAbove || (gapBelow = gapAbove && below % 2 = 0) then
        some ⟨below, power⟩
      else some ⟨above, power⟩
  | true, false => some ⟨below, power⟩
  | false, true => some ⟨above, power⟩
  | false, false => none

/-- A power of ten greater than twice the number, by its count of binary digits. -/
def powerAbove (b : Binary) : Int :=
  (b.exponent + Nat.log2 b.significand + 1) * 30103 / 100000 + 2

/-- The coarsest grid of decimals that has a point which rounds to the number gives
its shortest decimal. Seventeen digits always suffice, so a score of grids does. -/
def shortest (b : Binary) : Digits :=
  let powers := (List.range 24).map fun (i : Nat) => b.powerAbove - (i : Int)
  (powers.findSome? b.nearestOnGrid?).getD ⟨0, 0⟩

end Binary

end Gherkin.Decimal
