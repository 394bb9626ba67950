import Leverage.Lending.Balance
import Leverage.Oracle

/-!
# Value of tokens

The value of an amount of tokens is the amount times a price, divided by the tokens of one whole
unit. Signed amounts are truncated toward zero, so that a liability is worth no more than the asset
of the same size.
-/

namespace Leverage

/-- The value of a signed amount of tokens at a price. No tokens are worth nothing, whatever their
decimals. -/
def tokenValue (tokens : SignedAmount) (decimals : Decimals) (price : SignedAmount) :
    Checked SignedAmount :=
  if tokens = 0 then .ok 0
  else do
    let unit ← (.lit 10 : SignedAmount).pow decimals.toNat
    tokens.mulDiv price unit

/-- The less favourable of two prices for the holder: the lower one for an asset and the higher one
for a liability. -/
def pessimisticPrice (tokens price average : SignedAmount) : SignedAmount :=
  if 0 < tokens then min price average else max price average

/-- The value of a signed amount of tokens at the less favourable of the price and its average. The
average has to be positive. -/
def strictTokenValue (tokens : SignedAmount) (decimals : Decimals) (price average : SignedAmount) :
    Checked SignedAmount :=
  if tokens = 0 then .ok 0
  else if average ≤ 0 then .error .invalidOracle
  else tokenValue tokens decimals (pessimisticPrice tokens price average)

/-- What a position comes to in tokens and in value, both without sign. -/
structure Appraisal where
  value : Amount
  tokens : Amount
deriving DecidableEq, Repr

namespace PoolPosition

def appraisal (position : PoolPosition) (pool : LendingPool) (oracle : OracleReading) :
    Checked Appraisal := do
  let tokens ← position.tokens pool
  let unit ← tenPow pool.decimals.toNat
  let value ← tokens.mulDiv (← oracle.price.cast _) unit
  return ⟨value, tokens⟩

def value (position : PoolPosition) (pool : LendingPool) (oracle : OracleReading) :
    Checked Amount := do
  return (← position.appraisal pool oracle).value

end PoolPosition

end Leverage
