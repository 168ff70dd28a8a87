import Gherkin.Decimal.Shortest
import Gherkin.Text.Digits

/-!
Contract: the written form of a floating-point number.

Owns: the choice between a plain decimal and one with an exponent, and the
spelling of both.
-/

set_option autoImplicit false

namespace Gherkin.Decimal

/-- How numbers are laid out: those whose leading digit stands for a power of ten
from `plainFrom` to `plainTo` are written without an exponent. -/
structure Layout where
  plainFrom : Int
  plainTo : Int
deriving DecidableEq, Repr

def plain (ds : List Char) (exponent : Int) : List Char :=
  let whole : Int := ds.length + exponent
  if 0 ≤ exponent then ds ++ List.replicate exponent.toNat '0' ++ ['.', '0']
  else if 0 < whole then ds.take whole.toNat ++ '.' :: ds.drop whole.toNat
  else '0' :: '.' :: (List.replicate (-whole).toNat '0' ++ ds)

/-- One digit, the others behind a point, and the power of ten of the first with
its sign. -/
def withExponent (ds : List Char) (power : Int) : List Char :=
  let mantissa := match ds with
    | d :: e :: rest => d :: '.' :: e :: rest
    | short => short
  let mark := if power < 0 then ['e', '-'] else ['e', '+']
  mantissa ++ mark ++ (Text.numeral power.natAbs).toList

/-- The text of a finite number: the fewest digits that read back as it. -/
def Layout.render (layout : Layout) (x : Float) : List Char :=
  let sign := if x.toBits >>> 63 = 1 then ['-'] else []
  let binary := Binary.ofFloat x
  if binary.significand = 0 then sign ++ ['0', '.', '0']
  else
    let decimal := binary.shortest
    let ds := (Text.numeral decimal.digits).toList
    let power : Int := decimal.exponent + ds.length - 1
    if layout.plainFrom ≤ power ∧ power ≤ layout.plainTo then
      sign ++ plain ds decimal.exponent
    else sign ++ withExponent ds power

end Gherkin.Decimal
