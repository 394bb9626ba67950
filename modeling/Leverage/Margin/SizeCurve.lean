import Leverage.Scale
import Leverage.SquareRoot

/-!
# Size curves

A large position is harder to unwind. With the square root of its size the weight of an asset falls
and the weight of a liability rises, each from the weight that a small position has. A size factor
of zero switches the curve off.
-/

namespace Leverage

/-- The square root of ten times a size plus one. Sizes are on `Scale.reserve`. -/
def sizeRoot (size : Amount) : Checked Amount := do
  return (← (← size.mul (.lit 10)).add (.lit 1)).sqrt

/-- A little more than one, on the product of `Scale.sizeFactor` and `Scale.weight`: the discount
divides it, so small positions stay above any weight up to one. -/
def discountNumerator : Amount := .lit 11000000000

/-- The weight of an asset of the given size: never more than the weight of a small one. -/
def discountedWeight (size : Amount) (factor weight : Ratio) : Checked Ratio :=
  if factor = 0 then .ok weight
  else do
    let root ← sizeRoot size
    let drag ← root.mulDiv factor.widen Scale.sizeRoot
    let discounted ← discountNumerator.div (← Scale.sizeFactor.add drag)
    (min discounted weight.widen).cast _

/-- What a root times a size factor is divided by before it is added to a weight of the given
scale. -/
def premiumDivisor (scale : Amount) : Checked Amount :=
  Scale.sizeRoot.mulDiv Scale.sizeFactor scale

/-- The weight of a liability of the given size: four fifths of the weight plus a part that grows
with the size, and never less than the weight of a small one. -/
def premiumWeight (size : Amount) (factor weight : Ratio) (scale : Amount) : Checked Ratio :=
  if factor = 0 then .ok weight
  else do
    let root ← sizeRoot size
    let weight : Amount := weight.widen
    let start ← weight.sub (← weight.div (.lit 5))
    let divisor ← premiumDivisor scale
    let premium ← start.add (← root.mulDiv factor.widen divisor)
    (max premium weight).cast _

end Leverage
