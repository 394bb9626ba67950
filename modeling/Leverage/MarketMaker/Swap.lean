import Leverage.MarketMaker.Basic

/-!
# Swaps

A swap moves an amount of one asset into or out of its reserve, and the other reserve follows from
the invariant. The amount of quote is given in quote units and is first brought to reserve units
through the peg.
-/

namespace Leverage

/-- Whether a swap adds to the reserve in which it is denominated or takes from it. -/
inductive Flow where
  | add
  | remove
deriving DecidableEq, Repr, Inhabited

/-- What a trade does to the reserve in which it is denominated: buying takes base out and brings
quote in, selling does the opposite. -/
def Direction.flow : Direction → Asset → Flow
  | .long, .base => .remove
  | .short, .quote => .remove
  | .long, .quote => .add
  | .short, .base => .add

/-- The two reserves after a swap: first the one in which the swap is denominated, then the one
that follows. -/
def swapOutput (reserve amount : Amount) (flow : Flow) (invariant : Amount) :
    Checked (Amount × Amount) := do
  let own ← match flow with
    | .add => reserve.add amount
    | .remove => reserve.sub amount
  let other ← invariant.div own
  return (own, other)

namespace MarketMaker

def reserveUnits (maker : MarketMaker) (asset : Asset) (amount : Amount) : Checked Amount :=
  match asset with
  | .base => .ok amount
  | .quote => amount.mulDiv Scale.peggedReserveToQuote maker.peg

def reservesAfter (maker : MarketMaker) (asset : Asset) (amount : Amount) (flow : Flow) :
    Checked Reserves := do
  let invariant ← maker.invariant
  let units ← maker.reserveUnits asset amount
  let (own, other) ← swapOutput (maker.reserves.get asset) units flow invariant
  return .ofAsset asset own other

/-- The market maker after a trade denominated in the given asset. Only its reserves change. -/
def swap (maker : MarketMaker) (asset : Asset) (amount : Amount) (direction : Direction) :
    Checked MarketMaker := do
  return { maker with reserves := ← maker.reservesAfter asset amount (direction.flow asset) }

end MarketMaker

end Leverage
