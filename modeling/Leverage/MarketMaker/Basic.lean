import Leverage.Key
import Leverage.Scale

/-!
# Market makers

A perpetual market has no order book of its own. Trades go against a virtual market maker with a
base and a quote reserve whose product is held at the square of its liquidity; the peg turns the
ratio of the reserves into a price.
-/

namespace Leverage

inductive Asset where
  | base
  | quote
deriving DecidableEq, Repr, Inhabited

/-- The direction of a trade or a position. -/
inductive Direction where
  | long
  | short
deriving DecidableEq, Repr, Inhabited

namespace Direction

def code : Direction → Nat
  | long => 0
  | short => 1

def ofCode? : Nat → Option Direction
  | 0 => some long
  | 1 => some short
  | _ => none

def ofCode (code : Unsigned 8) : Checked Direction :=
  (ofCode? code.toNat).elim (.error .unknownDirection) .ok

end Direction

@[ext] structure ByDirection (α : Type) where
  long : α
  short : α
deriving DecidableEq, Repr

def ByDirection.get {α : Type} (values : ByDirection α) : Direction → α
  | .long => values.long
  | .short => values.short

/-- A pair of virtual reserves, on `Scale.reserve`. -/
@[ext] structure Reserves where
  base : Amount := 0
  quote : Amount := 0
deriving DecidableEq, Repr, Inhabited

namespace Reserves

def get (reserves : Reserves) : Asset → Amount
  | .base => reserves.base
  | .quote => reserves.quote

/-- The reserves of which one is the given reserve of the given asset and the other the reserve of
the other asset. -/
def ofAsset (asset : Asset) (own other : Amount) : Reserves :=
  match asset with
  | .base => ⟨own, other⟩
  | .quote => ⟨other, own⟩

/-- The price that reserves and a peg stand for, on `Scale.price`: the quote reserve times the peg
over the base reserve. -/
def price (reserves : Reserves) (peg : Amount) : Checked Amount :=
  if reserves.base = 0 then .error .divisionByZero
  else do
    let pegged ← reserves.quote.mul peg
    pegged.mulDiv Scale.priceToPeg reserves.base

end Reserves

structure MarketMaker where
  oracle : Key := .zero
  reserves : Reserves := {}
  /-- The square root of the product at which the reserves are held. -/
  liquidity : Amount := 0
  /-- The factor that brings the quote reserve to the price of the base, on `Scale.peg`. -/
  peg : Amount := 0
  /-- The base that all users together hold against the market maker; positive if they are long. -/
  netBase : SignedAmount := 0
  /-- The quote that all users together hold against the market maker. -/
  netQuote : SignedAmount := 0
  /-- The distance between the two sides of the spread before it is widened. -/
  baseSpread : Ratio := 0
  /-- The bound on the sum of both sides of the spread. -/
  maxSpread : Ratio := 0
  /-- Whether, if not zero, the peg follows the oracle. -/
  repegIntensity : Unsigned 8 := 0
  exchangeFees : Amount := 0
  /-- The fees that have not been paid out or spent. -/
  retainedFees : SignedAmount := 0
deriving DecidableEq, Repr, Inhabited

namespace MarketMaker

def invariant (maker : MarketMaker) : Checked Amount := maker.liquidity.mul maker.liquidity

def price (maker : MarketMaker) : Checked Amount := maker.reserves.price maker.peg

end MarketMaker

end Leverage
