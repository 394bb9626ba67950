import Leverage.Margin.SizeCurve
import Leverage.Perp.Market

/-!
# Margin ratios

The part of a position's value that has to be backed. A perpetual market states its ratios; those of
a lending pool follow from its liability weights. Both grow with the size of the position along the
same curve.
-/

namespace Leverage

/-- The margin ratio that the liability weight of a pool stands for: one over the part of the weight
beyond one. A weight of one or less stands for none. -/
def LendingPool.marginRatio (pool : LendingPool) (tier : MarginTier) : Checked Ratio :=
  let weight : Amount := (pool.liabilityWeights.get tier).widen
  if weight ≤ Scale.weight then .error .invalidPoolConfig
  else do
    let one ← Scale.margin.mul Scale.weight
    let ratio ← one.div (← weight.sub Scale.weight)
    ratio.cast _

inductive Market where
  | perp (market : PerpMarket)
  | spot (pool : LendingPool)
deriving DecidableEq, Repr

inductive MarketKind where
  | spot
  | perp
deriving DecidableEq, Repr, Inhabited

namespace MarketKind

def code : MarketKind → Nat
  | spot => 0
  | perp => 1

def ofCode? : Nat → Option MarketKind
  | 0 => some spot
  | 1 => some perp
  | _ => none

end MarketKind

namespace Market

def kind : Market → MarketKind
  | perp _ => .perp
  | spot _ => .spot

/-- How strongly the market's margin ratios react to size. -/
def sizeFactor : Market → Ratio
  | perp market => market.sizeFactor
  | spot pool => pool.sizeFactor

/-- The margin ratio of a small position. -/
def baseMarginRatio (market : Market) (tier : MarginTier) : Checked Ratio :=
  match market with
  | perp market => .ok (market.marginRatios.get tier)
  | spot pool => pool.marginRatio tier

/-- The margin ratio of a position of the given size. -/
def marginRatio (market : Market) (size : Amount) (tier : MarginTier) : Checked Ratio := do
  let ratio ← market.baseMarginRatio tier
  premiumWeight size market.sizeFactor ratio Scale.margin

/-- The margin ratio under a tier given by its number, which has to stand for one. -/
def marginRatioOfCode (market : Market) (size : Amount) (code : Unsigned 8) : Checked Ratio := do
  let tier ← MarginTier.ofCode code
  market.marginRatio size tier

end Market

/-- A margin requirement with a buffer, a part of the requirement on `Scale.margin`, on top. -/
def bufferedRequirement (requirement buffer : Amount) : Checked Amount := do
  requirement.add (← requirement.mulDiv buffer Scale.margin)

end Leverage
